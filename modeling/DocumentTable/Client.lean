import DocumentTable.Traced

/-!
# Clients

A client answers requests. Tables are written against any client: one that posts requests to a
service, one that reads its answers from a script, or one that keeps the items itself.

## Main definitions

* `Client`: what answers requests, with its states
-/

namespace DocumentTable

/-- What answers requests. Its state may change with each of them. -/
structure Client (σ : Type) where
  send : (op : Operation) → op.Request → Exchange σ ServiceError op.Response

end DocumentTable
