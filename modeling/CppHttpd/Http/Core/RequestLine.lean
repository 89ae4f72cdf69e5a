import CppHttpd.Http.Core.ParserStep

/-!
# The request line

`process_request_line` cuts a line at its spaces.  What it reads are three
words; which of them it looks at more closely decides how much of
`METHOD URI HTTP/1.x` it enforces.
-/

namespace CppHttpd

open CppHttpd.Foundation

/-! ## Three words -/

structure RequestWords where
  word : Bytes
  uri : Bytes
  version : Bytes
  word_noSP : SP ∉ word
  uri_noSP : SP ∉ uri
  version_noSP : SP ∉ version

namespace RequestWords

def line (w : RequestWords) : Bytes := w.word ++ SP :: (w.uri ++ SP :: w.version)

theorem drop_word (w : RequestWords) :
    w.line.drop (w.word.length + 1) = w.uri ++ SP :: w.version := by
  simp [line, List.drop_append]

theorem drop_uri (w : RequestWords) :
    w.line.drop (w.word.length + 1 + w.uri.length + 1) = w.version := by
  have hsplit : w.line = (w.word ++ SP :: w.uri ++ [SP]) ++ w.version := by simp [line]
  rw [hsplit]
  apply List.drop_left'
  simp only [List.length_append, List.length_cons, List.length_nil]
  omega

theorem find_first (w : RequestWords) : find w.line SP 0 = some w.word.length :=
  find_append_cons w.word_noSP _

theorem find_second (w : RequestWords) :
    find w.line SP (w.word.length + 1) = some (w.word.length + 1 + w.uri.length) := by
  rw [find, w.drop_word, idxOf?_append_cons w.uri_noSP]
  rfl

theorem find_third (w : RequestWords) :
    find w.line SP (w.word.length + 1 + w.uri.length + 1) = none := by
  rw [find_eq_none_iff, w.drop_uri]
  exact w.version_noSP

theorem eq_of_line_eq {w w' : RequestWords} (h : w.line = w'.line) :
    w.word = w'.word ∧ w.uri = w'.uri ∧ w.version = w'.version := by
  obtain ⟨hword, hrest⟩ := append_cons_inj w.word_noSP w'.word_noSP h
  obtain ⟨huri, hversion⟩ := append_cons_inj w.uri_noSP w'.uri_noSP hrest
  exact ⟨hword, huri, hversion⟩

end RequestWords

/-- The method a word names. -/
def methodOf (word : Bytes) : Option Method :=
  [Method.GET, .POST, .HEAD, .OPTIONS].find? (·.toBytes = word)

@[simp] theorem methodOf_toBytes (m : Method) : methodOf m.toBytes = some m := by
  cases m <;> decide

theorem methodOf_eq_some {word : Bytes} {m : Method} (h : methodOf word = some m) :
    m.toBytes = word := by
  have hfound := List.find?_some h
  simpa using hfound

theorem methodOf_ne_none_iff {word : Bytes} :
    methodOf word ≠ none ↔ ∃ m : Method, m.toBytes = word := by
  constructor
  · intro hne
    obtain ⟨m, hm⟩ := Option.ne_none_iff_exists'.1 hne
    exact ⟨m, methodOf_eq_some hm⟩
  · rintro ⟨m, rfl⟩
    simp

/-- The comparisons of `process_request_line`, one after the other. -/
theorem methodOf_eq (word : Bytes) :
    methodOf word =
      if word = ascii "GET" then some .GET
      else if word = ascii "POST" then some .POST
      else if word = ascii "HEAD" then some .HEAD
      else if word = ascii "OPTIONS" then some .OPTIONS
      else none := by
  split_ifs with hget hpost hhead hoptions
  · rw [hget]
    exact methodOf_toBytes .GET
  · rw [hpost]
    exact methodOf_toBytes .POST
  · rw [hhead]
    exact methodOf_toBytes .HEAD
  · rw [hoptions]
    exact methodOf_toBytes .OPTIONS
  · by_contra hne
    obtain ⟨m, rfl⟩ := methodOf_ne_none_iff.1 hne
    cases m with
    | GET => exact hget rfl
    | POST => exact hpost rfl
    | HEAD => exact hhead rfl
    | OPTIONS => exact hoptions rfl

/-! ## What is read from a line -/

namespace RequestParser

theorem parseRequestLine_words (p : RequestParser) (w : RequestWords) :
    p.parseRequestLine w.line =
      let q := { p with request := { p.request with uri := w.uri } }
      if trim w.version = [] ∨ w.word = [] ∨ w.uri = [] then
        q.fail .invalidRequestLine "Empty method, URI, or version"
      else
        match methodOf w.word with
        | some m => q.acceptMethod m
        | none => q.fail .methodNotAllowed "Method not allowed" := by
  have hmethod : w.line.take w.word.length = w.word := by simp [RequestWords.line]
  unfold parseRequestLine
  split
  · rename_i heq
    rw [w.find_first] at heq
    cases heq
  · rename_i s1 heq1
    rw [w.find_first] at heq1
    cases heq1
    split
    · rename_i heq
      rw [w.find_second] at heq
      cases heq
    · rename_i s2 heq2
      rw [w.find_second] at heq2
      cases heq2
      rw [if_neg (by simp [w.find_third])]
      simp only [substr_eq, substrFrom_eq, List.drop_zero, hmethod, w.drop_word, w.drop_uri,
        Nat.add_sub_cancel_left, List.take_left', methodOf_eq]
      split_ifs <;> rfl

private theorem find_split_from {s : Bytes} {c : Byte} {start i : Nat}
    (h : find s c start = some i) :
    s.drop start = (s.drop start).take (i - start) ++ c :: s.drop (i + 1) ∧
      c ∉ (s.drop start).take (i - start) := by
  obtain ⟨j, hj, rfl⟩ := Option.map_eq_some_iff.1 h
  have hsplit := find_split (s := s.drop start) (c := c) (i := j) (by rw [find_zero, hj])
  rw [List.drop_drop] at hsplit
  rwa [Nat.add_sub_cancel_left, Nat.add_assoc]

/-- A line that has not exactly two spaces is refused. -/
theorem parseRequestLine_otherwise (p : RequestParser) {line : Bytes}
    (h : ∀ w : RequestWords, w.line ≠ line) :
    ∃ message, p.parseRequestLine line = p.fail .invalidRequestLine message := by
  unfold parseRequestLine
  split
  · exact ⟨_, rfl⟩
  · rename_i s1 h1
    split
    · exact ⟨_, rfl⟩
    · rename_i s2 h2
      by_cases hthird : find line SP (s2 + 1) = none
      · have hword := find_split h1
        have huri := find_split_from h2
        have hversion := find_eq_none_iff.1 hthird
        exfalso
        apply h ⟨line.take s1, (line.drop (s1 + 1)).take (s2 - (s1 + 1)), line.drop (s2 + 1),
          hword.2, huri.2, hversion⟩
        calc line.take s1 ++ SP :: ((line.drop (s1 + 1)).take (s2 - (s1 + 1)) ++
              SP :: line.drop (s2 + 1))
            = line.take s1 ++ SP :: line.drop (s1 + 1) := by rw [← huri.1]
          _ = line := hword.1.symm
      · rw [if_pos hthird]
        exact ⟨_, rfl⟩

/-- The words `process_request_line` goes on with. -/
structure Readable (w : RequestWords) : Prop where
  method_known : ∃ m : Method, m.toBytes = w.word
  uri_ne : w.uri ≠ []
  version_ne : trim w.version ≠ []

theorem Readable.parseRequestLine_eq {w : RequestWords} (h : Readable w) (p : RequestParser) :
    ∃ m : Method, m.toBytes = w.word ∧ p.parseRequestLine w.line =
      acceptMethod { p with request := { p.request with uri := w.uri } } m := by
  obtain ⟨m, hm⟩ := h.method_known
  have hword : m.toBytes ≠ [] := by cases m <;> decide
  have hread := p.parseRequestLine_words w
  simp only [h.version_ne, h.uri_ne, ← hm, hword, or_self, if_false, methodOf_toBytes] at hread
  exact ⟨m, hm, hread⟩

theorem parseRequestLine_error_iff (p : RequestParser) (line : Bytes) :
    (p.parseRequestLine line).2.state = .error ↔
      ¬ ∃ w : RequestWords, w.line = line ∧ Readable w := by
  constructor
  · rintro herror ⟨w, rfl, hw⟩
    obtain ⟨m, -, hread⟩ := hw.parseRequestLine_eq p
    rw [hread] at herror
    cases herror
  · intro hnone
    by_cases hwords : ∃ w : RequestWords, w.line = line
    · obtain ⟨w, rfl⟩ := hwords
      rw [parseRequestLine_words]
      dsimp only
      split_ifs with hparts
      · rfl
      · push Not at hparts
        cases hm : methodOf w.word with
        | none => rfl
        | some m =>
            exact absurd ⟨w, rfl, ⟨m, methodOf_eq_some hm⟩, hparts.2.2, hparts.1⟩ hnone
    · push Not at hwords
      obtain ⟨message, hfail⟩ := p.parseRequestLine_otherwise hwords
      rw [hfail]
      rfl

end RequestParser

/-! ## The grammar -/

def isControl (c : Byte) : Bool := c < 32 || c == 127

namespace RequestWords

/-- `METHOD SP URI SP HTTP/1.x`, whatever the method is. -/
structure Grammatical (w : RequestWords) : Prop where
  word_ne : w.word ≠ []
  uri_ne : w.uri ≠ []
  uri_clean : ∀ c ∈ w.uri, isControl c = false
  version_eq : ∃ digit, isDigit digit = true ∧ w.version = ascii "HTTP/1." ++ [digit]

/-- Three words that are read although they are not `METHOD URI HTTP/1.x`. -/
structure Lenient (w : RequestWords) : Prop where
  word_ne : w.word ≠ []
  uri_ne : w.uri ≠ []
  version_ne : trim w.version ≠ []
  deviates : (∃ c ∈ w.uri, isControl c = true) ∨
    ∀ digit, isDigit digit = true → w.version ≠ ascii "HTTP/1." ++ [digit]

theorem Grammatical.trim_version_ne {w : RequestWords} (h : w.Grammatical) :
    trim w.version ≠ [] := by
  obtain ⟨digit, hdigit, heq⟩ := h.version_eq
  have hkept : trim w.version = w.version := by
    rw [heq]
    apply trim_eq_self
    · intro c hc
      obtain rfl := Option.some.inj hc
      decide
    · intro c hc
      obtain rfl : digit = c := by simpa using hc
      apply contains_eq_false (p := fun c => isDigit c = false)
      · exact forall_mem_of_all (by decide)
      · simp [hdigit]
  rw [hkept, heq]
  simp

theorem grammatical_or_lenient {w : RequestWords} (hword : w.word ≠ []) (huri : w.uri ≠ [])
    (hversion : trim w.version ≠ []) : w.Grammatical ∨ w.Lenient := by
  by_cases hclean : ∀ c ∈ w.uri, isControl c = false
  · by_cases heq : ∃ digit, isDigit digit = true ∧ w.version = ascii "HTTP/1." ++ [digit]
    · exact .inl ⟨hword, huri, hclean, heq⟩
    · right
      refine ⟨hword, huri, hversion, .inr ?_⟩
      intro digit hdigit hv
      exact heq ⟨digit, hdigit, hv⟩
  · push Not at hclean
    obtain ⟨c, hc, hcontrol⟩ := hclean
    exact .inr ⟨hword, huri, hversion, .inl ⟨c, hc, by simpa using hcontrol⟩⟩

theorem Lenient.not_grammatical {w w' : RequestWords} (h : w.Lenient)
    (heq : w'.line = w.line) : ¬ w'.Grammatical := by
  intro hstrict
  obtain ⟨-, huri, hversion⟩ := eq_of_line_eq heq
  rcases h.deviates with ⟨c, hc, hcontrol⟩ | hother
  · rw [hstrict.uri_clean c (huri ▸ hc)] at hcontrol
    cases hcontrol
  · obtain ⟨digit, hdigit, hv⟩ := hstrict.version_eq
    exact hother digit hdigit (hversion ▸ hv)

end RequestWords

/-- A turn on `line` reads the grammar, and nothing else. -/
structure ReadsGrammar (line : Bytes) (p : RequestParser) : Prop where
  accepts : p.state = .headers ↔
    ∃ w : RequestWords, w.line = line ∧ w.Grammatical ∧ ∃ m : Method, m.toBytes = w.word
  stores : ∀ w : RequestWords, w.line = line → w.Grammatical → ∀ m : Method,
    m.toBytes = w.word →
      p.request.method = m ∧ p.request.methodStr = m.toBytes ∧ p.request.uri = w.uri
  methodUnknown : ∀ w : RequestWords, w.line = line → w.Grammatical →
    (∀ m : Method, m.toBytes ≠ w.word) → p.state = .error ∧ p.error = .methodNotAllowed
  malformed : (∀ w : RequestWords, w.line = line → ¬ w.Grammatical) →
    p.state = .error ∧ p.error = .invalidRequestLine

namespace RequestParser

theorem parseRequestLine_grammatical (p : RequestParser) {w : RequestWords}
    (h : w.Grammatical) : ReadsGrammar w.line (p.parseRequestLine w.line).2 := by
  have hread := p.parseRequestLine_words w
  simp only [h.trim_version_ne, h.word_ne, h.uri_ne, false_or, if_false] at hread
  rw [hread]
  constructor
  · constructor
    · intro hstate
      refine ⟨w, rfl, h, ?_⟩
      cases hm : methodOf w.word with
      | some m => exact ⟨m, methodOf_eq_some hm⟩
      | none =>
          rw [hm] at hstate
          cases hstate
    · rintro ⟨w', heq, -, m, hm⟩
      rw [(RequestWords.eq_of_line_eq heq).1] at hm
      rw [← hm, methodOf_toBytes]
      rfl
  · intro w' heq _ m hm
    obtain ⟨hword, huri, -⟩ := RequestWords.eq_of_line_eq heq
    rw [← hword, ← hm, methodOf_toBytes]
    exact ⟨rfl, rfl, huri.symm⟩
  · intro w' heq _ hunknown
    have hnone : methodOf w.word = none := by
      by_contra hne
      obtain ⟨m, hm⟩ := methodOf_ne_none_iff.1 hne
      exact hunknown m (hm.trans (RequestWords.eq_of_line_eq heq).1.symm)
    rw [hnone]
    exact ⟨rfl, rfl⟩
  · intro hnone
    exact absurd h (hnone w rfl)

theorem readsGrammar_of_fail (p : RequestParser) {line : Bytes} (message : String)
    (h : ∀ w : RequestWords, w.line = line → ¬ w.Grammatical) :
    ReadsGrammar line (p.fail .invalidRequestLine message).2 := by
  constructor
  · constructor
    · intro hstate
      cases hstate
    · rintro ⟨w, heq, hw, -⟩
      exact absurd hw (h w heq)
  · intro w heq hw
    exact absurd hw (h w heq)
  · intro w heq hw
    exact absurd hw (h w heq)
  · intro _
    exact ⟨rfl, rfl⟩

theorem parseRequestLine_lenient (p : RequestParser) {w : RequestWords} (h : w.Lenient) :
    ¬ ReadsGrammar w.line (p.parseRequestLine w.line).2 := by
  intro hreads
  have hstate := hreads.malformed fun w' heq => h.not_grammatical heq
  have hread := p.parseRequestLine_words w
  simp only [h.version_ne, h.word_ne, h.uri_ne, false_or, if_false] at hread
  rw [hread] at hstate
  cases hm : methodOf w.word with
  | some m =>
      rw [hm] at hstate
      cases hstate.1
  | none =>
      rw [hm] at hstate
      cases hstate.2

theorem readsGrammar_iff (p : RequestParser) (line : Bytes) :
    ReadsGrammar line (p.parseRequestLine line).2 ↔
      ∀ w : RequestWords, w.line = line → ¬ w.Lenient := by
  constructor
  · rintro hreads w rfl hlenient
    exact p.parseRequestLine_lenient hlenient hreads
  · intro hstrict
    by_cases hwords : ∃ w : RequestWords, w.line = line
    · obtain ⟨w, rfl⟩ := hwords
      by_cases hparts : trim w.version = [] ∨ w.word = [] ∨ w.uri = []
      · rw [parseRequestLine_words]
        simp only [if_pos hparts]
        apply readsGrammar_of_fail
        intro w' heq hw'
        obtain ⟨hword, huri, hversion⟩ := RequestWords.eq_of_line_eq heq
        rcases hparts with hnone | hnone | hnone
        · exact hw'.trim_version_ne (hversion ▸ hnone)
        · exact hw'.word_ne (hword ▸ hnone)
        · exact hw'.uri_ne (huri ▸ hnone)
      · push Not at hparts
        obtain ⟨hversion, hword, huri⟩ := hparts
        have hw := (RequestWords.grammatical_or_lenient hword huri hversion).resolve_right
          (hstrict w rfl)
        exact p.parseRequestLine_grammatical hw
    · push Not at hwords
      obtain ⟨message, hfail⟩ := p.parseRequestLine_otherwise hwords
      rw [hfail]
      exact p.readsGrammar_of_fail message fun w heq => absurd heq (hwords w)

/-- `process_request_line` follows the grammar exactly on the lines it does not read
leniently. -/
theorem processRequestLine_readsGrammar_iff (p : RequestParser) {raw rest : Bytes}
    (hraw : LF ∉ raw) (hbuffer : p.buffer = raw ++ LF :: rest) :
    ReadsGrammar (dropCR raw) p.processRequestLine.2 ↔
      ∀ w : RequestWords, w.line = dropCR raw → ¬ w.Lenient := by
  have hcut : cutLine p.buffer = some (dropCR raw, rest) := by
    rw [hbuffer]
    exact cutLine_append hraw rest
  simp only [processRequestLine, hcut]
  exact readsGrammar_iff _ _

theorem processRequestLine_readsGrammar_iff_http2 :
    ReadsGrammar (ascii "GET / HTTP/2")
        (processRequestLine { buffer := ascii "GET / HTTP/2\r\n" }).2 ↔
      ∀ w : RequestWords, w.line = ascii "GET / HTTP/2" → ¬ w.Lenient := by
  have hraw : LF ∉ ascii "GET / HTTP/2\r" := by decide
  have hbuffer : ascii "GET / HTTP/2\r\n" = ascii "GET / HTTP/2\r" ++ LF :: [] := rfl
  exact processRequestLine_readsGrammar_iff { buffer := ascii "GET / HTTP/2\r\n" } hraw hbuffer

/-- A version of another protocol, and a URI with a NUL byte. -/
theorem processRequestLine_accepts_deviations :
    (processRequestLine { buffer := ascii "GET / HTTP/2\r\n" }).2.state = .headers ∧
      ¬ ReadsGrammar (ascii "GET / HTTP/2")
        (processRequestLine { buffer := ascii "GET / HTTP/2\r\n" }).2 ∧
      (processRequestLine { buffer := ascii "GET /\x00 HTTP/1.1\r\n" }).2.state = .headers ∧
      ¬ ReadsGrammar (ascii "GET /\x00 HTTP/1.1")
        (processRequestLine { buffer := ascii "GET /\x00 HTTP/1.1\r\n" }).2 := by
  refine ⟨by decide, ?_, by decide, ?_⟩
  · have hlenient : RequestWords.Lenient
        ⟨ascii "GET", ascii "/", ascii "HTTP/2", by decide, by decide, by decide⟩ := by
      refine ⟨by decide, by decide, by decide, .inr ?_⟩
      intro digit _ heq
      exact absurd (congrArg List.length heq) (by simp [ascii])
    exact parseRequestLine_lenient { buffer := [] } hlenient
  · have hlenient : RequestWords.Lenient
        ⟨ascii "GET", ascii "/\x00", ascii "HTTP/1.1", by decide, by decide, by decide⟩ :=
      ⟨by decide, by decide, by decide, .inl ⟨NUL, by decide, by decide⟩⟩
    exact parseRequestLine_lenient { buffer := [] } hlenient

end RequestParser
end CppHttpd
