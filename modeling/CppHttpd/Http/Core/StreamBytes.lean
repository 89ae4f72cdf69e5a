import CppHttpd.Http.Core.Quiescence

/-!
# Bytes that were not sent

A URI is part of a line, and a line is part of what was read.  A byte that is in
no read is in no URI.
-/

namespace CppHttpd.RequestParser

open CppHttpd.Foundation

/-- The byte is neither in the URI nor in what is still to be looked at. -/
structure Avoids (c : Byte) (p : RequestParser) : Prop where
  buffer : c ∉ p.buffer
  uri : c ∉ p.request.uri

variable {c : Byte} {p : RequestParser}

theorem avoids_fresh (c : Byte) : Avoids c {} where
  buffer := List.not_mem_nil
  uri := List.not_mem_nil

theorem not_mem_of_cut {buffer line rest : Bytes} (h : cutLine buffer = some (line, rest))
    (hc : c ∉ buffer) : c ∉ line ∧ c ∉ rest := by
  rcases cutLine_cases buffer with ⟨-, hnone⟩ | ⟨raw, tail, -, hbuffer, hsome⟩
  · rw [hnone] at h
    cases h
  · rw [hsome] at h
    obtain ⟨rfl, rfl⟩ := Prod.mk.inj (Option.some.inj h)
    subst hbuffer
    simp only [List.mem_append, List.mem_cons, not_or] at hc
    refine ⟨fun hmem => hc.1 ?_, hc.2.2⟩
    unfold dropCR at hmem
    split_ifs at hmem
    · exact List.dropLast_subset _ hmem
    · exact hmem

theorem uri_parseRequestLine (hc : c ∉ p.request.uri) {line : Bytes} (hline : c ∉ line) :
    c ∉ (parseRequestLine p line).2.request.uri := by
  unfold parseRequestLine
  split
  · exact hc
  · split
    · exact hc
    · rename_i s1 _ s2 _
      have huri : c ∉ (line.drop (s1 + 1)).take (s2 - (s1 + 1)) := fun hmem =>
        hline (List.mem_of_mem_drop (List.mem_of_mem_take hmem))
      simp only [acceptMethod, fail]
      split_ifs
      · exact hc
      all_goals exact huri

theorem uri_storeHeader (p : RequestParser) (line : Bytes) :
    (storeHeader p line).2.request.uri = p.request.uri := by
  unfold storeHeader
  dsimp only
  split_ifs <;> rfl

theorem uri_endHeaders (p : RequestParser) : (endHeaders p).2.request.uri = p.request.uri := by
  have haccept : ∀ cl, (acceptLength p cl).2.request.uri = p.request.uri := by
    intro cl
    unfold acceptLength
    split_ifs <;> rfl
  unfold endHeaders
  split
  · exact haccept 0
  · split
    · rfl
    · split_ifs
      · rfl
      · exact haccept _

theorem Avoids.turn (h : Avoids c p) : Avoids c p.turn.2 := by
  unfold RequestParser.turn
  cases hstate : p.state with
  | requestLine =>
      simp only [processRequestLine]
      cases hcut : cutLine p.buffer with
      | none =>
          dsimp only
          split_ifs
          · exact ⟨h.buffer, h.uri⟩
          · exact h
      | some cut =>
          obtain ⟨hline, hrest⟩ := not_mem_of_cut hcut h.buffer
          refine ⟨?_, uri_parseRequestLine (p := { p with buffer := cut.2 }) h.uri hline⟩
          rw [(parseRequestLine_ends _ _).buffer_eq]
          exact hrest
  | headers =>
      simp only [processHeaders]
      cases hcut : cutLine p.buffer with
      | none =>
          dsimp only
          split_ifs
          · exact ⟨h.buffer, h.uri⟩
          · exact h
      | some cut =>
          obtain ⟨-, hrest⟩ := not_mem_of_cut hcut h.buffer
          dsimp only
          split_ifs
          · refine ⟨?_, ?_⟩
            · rw [(endHeaders_ends _).buffer_eq]
              exact hrest
            · rw [uri_endHeaders]
              exact h.uri
          · refine ⟨?_, ?_⟩
            · rw [(storeHeader_ends _ _).buffer_eq]
              exact hrest
            · rw [uri_storeHeader]
              exact h.uri
  | body =>
      simp only [processBody]
      split_ifs
      · exact ⟨h.buffer, h.uri⟩
      · exact h
      · exact ⟨fun hmem => h.buffer (List.mem_of_mem_drop hmem), h.uri⟩
  | done => exact h
  | error => exact h

theorem Avoids.advance (h : Avoids c p) : Avoids c p.advance := by
  have hadvances := advances_advance p
  generalize p.advance = p' at hadvances
  induction hadvances with
  | stopped => exact h
  | waits _ hturn =>
      have hnext := h.turn
      rwa [hturn] at hnext
  | again _ hturn _ ih =>
      have hnext := h.turn
      rw [hturn] at hnext
      exact ih hnext

theorem Avoids.feed (h : Avoids c p) {data : Bytes} (hdata : c ∉ data) :
    Avoids c (p.feed data) := by
  unfold RequestParser.feed
  split_ifs
  · exact h
  · refine Avoids.advance ⟨?_, h.uri⟩
    rw [List.mem_append, not_or]
    exact ⟨h.buffer, hdata⟩

theorem Avoids.getRequest (h : Avoids c p) : Avoids c p.getRequest.2 :=
  Avoids.advance (p := p.restart) ⟨h.buffer, List.not_mem_nil⟩

end CppHttpd.RequestParser
