import DocumentTable.Marshaller

/-!
# Cursors

A cursor marks the end of a page: the key of the last item that was read. The next page starts
behind it. Its token is safe to hand out in addresses.

## Main definitions

* `Cursor`: the key of the last item of a page
* `Cursor.encode`, `Cursor.decode`: its token
-/

namespace DocumentTable

/-- The key of the last item of a page. -/
structure Cursor where
  key : Item
  deriving DecidableEq

namespace Cursor

/-- The token of a cursor: the text of its key in base 64. -/
def encode (cursor : Cursor) : String :=
  Base64.encode .urlSafe (bytesOf (Item.codec.print cursor.key))

/-- The cursor of a token. -/
def decode (token : String) : Except MarshalError Cursor :=
  match Base64.decode .urlSafe token with
  | .error cause => .error (.invalidCursor cause.message)
  | .ok bytes =>
    match Item.codec.parseBytes bytes with
    | .error cause => .error (.invalidCursor cause.message)
    | .ok key => .ok ⟨key⟩

end Cursor

end DocumentTable
