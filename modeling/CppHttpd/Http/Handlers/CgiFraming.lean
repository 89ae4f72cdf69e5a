import CppHttpd.Http.Handlers.CgiOutput

/-!
# Headers that belong to the server

The server frames the output of a program and says itself whether it keeps the
connection.  Three headers of the program are dropped for that, in one spelling
each, while the names of header fields do not depend on upper and lower case.
-/

namespace CppHttpd

open CppHttpd.Foundation

def isConnection (name : Bytes) : Bool := toLower name = ascii "connection"

def isServerField (name : Bytes) : Bool := isFraming name || isConnection name

/-- The fields of the server are on the wire as the server has set them, and only once. -/
structure ServerFramed (it : HttpResponse.Iteration) (request : HttpRequest)
    (response : HttpResponse) : Prop where
  bytes : (packageResponse it request response).bytes =
    (sentMessage it request response).head ++ (sentMessage it request response).body
  framing : (sentMessage it request response).fields isFraming =
    [⟨ascii "Transfer-Encoding", ascii "chunked"⟩]
  connection : (sentMessage it request response).fields isConnection =
    [⟨ascii "Connection", connectionValue request⟩]

section

variable {it : HttpResponse.Iteration} {request : HttpRequest} {uninitialised : Int}
  {headerBlock body : Bytes}

theorem isReservedHeader_of_field {field : Bytes × Bytes} (h : field ∈ cgiFields headerBlock) :
    isReservedHeader field.1 = false := by
  obtain ⟨line, -, hline⟩ := List.mem_filterMap.1 h
  exact headerField_not_reserved hline

theorem sent_framing_iff :
    (sentMessage it request (cgiResponse uninitialised headerBlock body)).fields isFraming =
        [⟨ascii "Transfer-Encoding", ascii "chunked"⟩] ↔
      ∀ field ∈ cgiFields headerBlock, isFraming field.1 = false := by
  have hconnection : isFraming (ascii "Connection") = false := by decide
  rw [sent_fields_iff hconnection]
  constructor
  · rintro ⟨-, -, honly⟩ field hfield
    by_contra hframing
    have hname := honly field.1 (mem_cgiResponse.2 (.inr ⟨field, hfield, rfl⟩))
      (by simpa using hframing)
    exact cgiFields_ne hfield hname
  · intro hplain
    refine ⟨by decide, lookup_cgiResponse_chunked, ?_⟩
    intro key hkey hframing
    rcases mem_cgiResponse.1 hkey with hname | ⟨field, hfield, rfl⟩
    · exact hname
    · rw [hplain field hfield] at hframing
      cases hframing

/-- The server's own `Connection` header replaces one of the same spelling only. -/
theorem sent_connection_iff :
    (sentMessage it request (cgiResponse uninitialised headerBlock body)).fields isConnection =
        [⟨ascii "Connection", connectionValue request⟩] ↔
      ∀ field ∈ cgiFields headerBlock, isConnection field.1 = false := by
  have hencoding : isConnection (ascii "Transfer-Encoding") = false := by decide
  simp only [Message.fields, sentMessage, filter_order_singleton_iff, HttpResponse.setHeader,
    AList.mem_insert, AList.lookup_insert]
  constructor
  · rintro ⟨-, -, honly⟩ field hfield
    by_contra hname
    have hexact := honly field.1 (.inr (mem_cgiResponse.2 (.inr ⟨field, hfield, rfl⟩)))
      (by simpa using hname)
    have hreserved := isReservedHeader_of_field hfield
    rw [hexact] at hreserved
    revert hreserved
    decide
  · intro hplain
    refine ⟨by decide, trivial, ?_⟩
    rintro key (hkey | hkey) hname
    · exact hkey
    · rcases mem_cgiResponse.1 hkey with rfl | ⟨field, hfield, rfl⟩
      · rw [hencoding] at hname
        cases hname
      · rw [hplain field hfield] at hname
        cases hname

theorem cgiResponse_serverFramed_iff :
    ServerFramed it request (cgiResponse uninitialised headerBlock body) ↔
      ∀ field ∈ cgiFields headerBlock, isServerField field.1 = false := by
  simp only [isServerField, Bool.or_eq_false_iff, forall₂_and]
  rw [← sent_framing_iff, ← sent_connection_iff]
  constructor
  · intro h
    exact ⟨h.framing, h.connection⟩
  · rintro ⟨hframing, hconnection⟩
    exact ⟨packageResponse_bytes, hframing, hconnection⟩

end

/-- A program leaves the server's headers alone exactly if it writes none of them in a spelling
of its own. -/
theorem parseCgiOutput_serverFramed_iff (it : HttpResponse.Iteration) (request : HttpRequest)
    (uninitialised : Int) {output headerBlock body : Bytes}
    (hsplit : splitCgiOutput output = some (headerBlock, body)) :
    ServerFramed it request (parseCgiOutput uninitialised output) ↔
      ∀ field ∈ cgiFields headerBlock, isServerField field.1 = false := by
  rw [parseCgiOutput_of_split hsplit]
  exact cgiResponse_serverFramed_iff

theorem parseCgiOutput_serverFramed_iff_plain :
    ServerFramed .inOrder {} (parseCgiOutput 0 (ascii "Content-Type: text/plain\n\nhello")) ↔
      ∀ field ∈ cgiFields (ascii "Content-Type: text/plain"), isServerField field.1 = false :=
  parseCgiOutput_serverFramed_iff .inOrder {} 0
    (by decide : splitCgiOutput (ascii "Content-Type: text/plain\n\nhello") =
      some (ascii "Content-Type: text/plain", ascii "hello"))

theorem not_serverFramed_of_field {output headerBlock body : Bytes} {field : Bytes × Bytes}
    (hsplit : splitCgiOutput output = some (headerBlock, body))
    (hfield : field ∈ cgiFields headerBlock) (hserver : isServerField field.1 = true) :
    ¬ ServerFramed .inOrder {} (parseCgiOutput 0 output) := by
  rw [parseCgiOutput_of_split hsplit, cgiResponse_serverFramed_iff]
  intro hplain
  rw [hplain field hfield] at hserver
  cases hserver

/-- A length and a connection header in lower case are sent beside those of the server. -/
theorem parseCgiOutput_not_serverFramed :
    ¬ ServerFramed .inOrder {} (parseCgiOutput 0 (ascii "content-length: 3\n\nhello")) ∧
      ¬ ServerFramed .inOrder {} (parseCgiOutput 0 (ascii "connection: upgrade\n\nhello")) ∧
      (packageResponse .inOrder {} (parseCgiOutput 0 (ascii "content-length: 3\n\nhello"))).bytes =
        ascii "HTTP/1.1 200 OK\r\nConnection: keep-alive\r\nTransfer-Encoding: chunked\r\n" ++
          ascii "content-length: 3\r\n\r\n5\r\nhello\r\n0\r\n\r\n" := by
  have hlength : splitCgiOutput (ascii "content-length: 3\n\nhello") =
      some (ascii "content-length: 3", ascii "hello") := by decide
  have hconnection : splitCgiOutput (ascii "connection: upgrade\n\nhello") =
      some (ascii "connection: upgrade", ascii "hello") := by decide
  refine ⟨?_, ?_, by decide⟩
  · exact not_serverFramed_of_field hlength
      (by decide : (ascii "content-length", ascii "3") ∈ _) (by decide)
  · exact not_serverFramed_of_field hconnection
      (by decide : (ascii "connection", ascii "upgrade") ∈ _) (by decide)

end CppHttpd
