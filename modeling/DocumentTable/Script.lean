import DocumentTable.Client
import DocumentTable.Service.Reply

/-!
# Scripted clients

A client whose replies are written down beforehand.

## Main definitions

* `Script`: the replies to come and the requests received so far
* `Script.client`: the script as a client
-/

namespace DocumentTable

/-- The replies to come and the requests received so far. -/
structure Script where
  replies : List Reply := []
  received : List Call := []

namespace Script

/-- The reply when the script has none left: an empty success. -/
def blank : Reply where
  status := 200
  body := bytesOf "\x7b\x7d"

/-- The next reply and the script after it. -/
def next (s : Script) : Reply × Script :=
  match s.replies with
  | reply :: rest => (reply, { s with replies := rest })
  | [] => (blank, s)

/-- The script as a client. -/
def client : Client Script where
  send op request s :=
    let (reply, s) := s.next
    (.ofExcept (reply.result op.responseCodec),
      { s with received := s.received ++ [⟨op, request⟩] })

end Script

end DocumentTable
