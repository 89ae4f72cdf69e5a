import CppHttpd.Http.Core.RequestWire

/-!
# Declared bodies

`Content-Length` is validated for every method, but only a POST has its body
taken from the stream.  Behind any other request the declared bytes are read as
the beginning of the next one.
-/

namespace CppHttpd.RequestParser

open CppHttpd.Foundation

theorem getRequest_declared {h : RequestHead} {cl : Nat} (hcl : DeclaresLength h cl)
    {body : Bytes} (hbody : body.length = cl) (t : Bytes) :
    (feed {} (h.bytes ++ (body ++ t))).getRequest =
      if h.method = .POST then (h.deliver cl body, feed {} t)
      else (h.deliver cl [], feed {} (body ++ t)) := by
  by_cases hpost : h.method = .POST
  · rw [feed_declared_post hcl hpost hbody, if_pos hpost]
    exact Prod.ext rfl (getRequest_eq_feed _)
  · rw [feed_declared_other hcl hpost, if_neg hpost]
    exact Prod.ext rfl (getRequest_eq_feed _)

theorem hasRequest_declared {h : RequestHead} {cl : Nat} (hcl : DeclaresLength h cl)
    {body : Bytes} (hbody : body.length = cl) (t : Bytes) :
    (feed {} (h.bytes ++ (body ++ t))).hasRequest = true := by
  by_cases hpost : h.method = .POST
  · rw [feed_declared_post hcl hpost hbody]
    rfl
  · rw [feed_declared_other hcl hpost]
    rfl

theorem feed_ne_fresh {data : Bytes} (hne : data ≠ []) (hLF : LF ∉ data) :
    feed {} data ≠ feed {} [] := by
  have hturn : turn { buffer := data } =
      if data.length > MAX_REQUEST_LINE then
        ({ buffer := data } : RequestParser).fail .badRequest "Request line too long"
      else (false, { buffer := data }) := by
    simp [turn, processRequestLine, cutLine_none hLF]
  have hbuffer : (feed {} data).buffer = data := by
    rw [feed_fresh, advance, advanceLoop, if_neg (by simp), hturn]
    split_ifs <;> rfl
  intro heq
  rw [heq] at hbuffer
  exact hne hbuffer.symm

/--
What is left behind a request with a declared body: the bytes behind the body
after a POST, the body as well after any other method.  So the declared body is
consumed exactly if the method is POST or there is nothing to consume.
-/
theorem declared_body_consumed_iff {h : RequestHead} {cl : Nat}
    (hcl : DeclaresLength h cl) :
    (∀ body t : Bytes, body.length = cl →
      (feed {} (h.bytes ++ (body ++ t))).hasRequest = true ∧
      (feed {} (h.bytes ++ (body ++ t))).getRequest =
        if h.method = .POST then (h.deliver cl body, feed {} t)
        else (h.deliver cl [], feed {} (body ++ t))) ∧
    ((∀ body t : Bytes, body.length = cl →
        (feed {} (h.bytes ++ (body ++ t))).getRequest.2 = feed {} t) ↔
      h.method = .POST ∨ cl = 0) := by
  refine ⟨fun body t hbody =>
    ⟨hasRequest_declared hcl hbody t, getRequest_declared hcl hbody t⟩, ?_, ?_⟩
  · intro hall
    by_contra hnot
    simp only [not_or] at hnot
    have hbody := hall (List.replicate cl SP) [] (List.length_replicate)
    rw [getRequest_declared hcl List.length_replicate, if_neg hnot.1] at hbody
    refine feed_ne_fresh ?_ ?_ hbody
    · simp [hnot.2]
    · simp [List.mem_replicate, (by decide : LF ≠ SP)]
  · rintro hcond body t hbody
    rw [getRequest_declared hcl hbody]
    rcases hcond with hpost | rfl
    · rw [if_pos hpost]
    · obtain rfl : body = [] := List.eq_nil_of_length_eq_zero hbody
      split_ifs <;> rfl

/-- A GET that declares five bytes. -/
theorem declared_body_consumed_iff_get : ∃ h : RequestHead,
    h.bytes = ascii "GET / HTTP/1.1\r\nContent-Length: 5\r\n\r\n" ∧
    ((∀ body t : Bytes, body.length = 5 →
        (feed {} (h.bytes ++ (body ++ t))).getRequest.2 = feed {} t) ↔
      h.method = .POST ∨ 5 = 0) := by
  let line : HeaderLine :=
    { line := ascii "Content-Length: 5", lineEnd := .crlf
      clean := ⟨by decide, by decide⟩, named := by decide }
  let head : RequestHead :=
    { method := .GET, uri := ascii "/", version := ascii "HTTP/1.1", lineEnd := .crlf
      headers := [line], blankEnd := .crlf
      uri_ne := by decide, uri_noSP := by decide, uri_noLF := by decide
      version_ne := by decide, version_noSP := by decide
      version_clean := ⟨by decide, by decide⟩ }
  have hcl : DeclaresLength head 5 :=
    ⟨⟨line, by simp [head]; decide, by decide⟩, by decide⟩
  exact ⟨head, by decide, (declared_body_consumed_iff hcl).2⟩

/-- The body declared by a GET is delivered as a request of its own. -/
theorem get_body_delivered_as_request :
    let head := ascii "GET / HTTP/1.1\r\nContent-Length: 26\r\n\r\n"
    let body := ascii "GET /smuggled HTTP/1.1\r\n\r\n"
    let left := (feed {} (head ++ (body ++ []))).getRequest.2
    body.length = 26 ∧
      left.hasRequest = true ∧ left.getRequest.1.uri = ascii "/smuggled" ∧
      (feed {} []).hasRequest = false ∧ left ≠ feed {} [] := by
  have hleft : (feed {} (ascii "GET / HTTP/1.1\r\nContent-Length: 26\r\n\r\n" ++
      (ascii "GET /smuggled HTTP/1.1\r\n\r\n" ++ []))).getRequest.2.hasRequest = true := by
    decide
  have hfresh : (feed {} []).hasRequest = false := by decide
  refine ⟨by decide, hleft, by decide, hfresh, fun heq => ?_⟩
  rw [heq, hfresh] at hleft
  cases hleft

end CppHttpd.RequestParser
