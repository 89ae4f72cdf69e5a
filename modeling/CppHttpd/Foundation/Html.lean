import CppHttpd.Foundation.Bytes

/-!
# Markup

What a client takes a page for before it builds a tree of it: bytes of text, and
tags with their attributes.  The reader is a machine that takes one byte at a
time.  Character references stay as they are written.
-/

namespace CppHttpd.Foundation

namespace Html

structure Tag where
  closing : Bool
  name : Bytes
  attributes : List (Bytes × Bytes)
  deriving DecidableEq, Repr

inductive Token where
  | char (c : Byte)
  | tag (t : Tag)
  deriving DecidableEq, Repr

/-- What the bytes read last are the beginning of. -/
inductive Mode where
  | data
  /-- The content of an element in which nothing but its own end tag is markup. -/
  | rawText (name : Bytes)
  | rawTagOpen (name : Bytes)
  | rawEndTag (name seen : Bytes)
  | tagOpen
  | endTagOpen
  | tagName (closing : Bool) (name : Bytes)
  | beforeAttribute (t : Tag)
  | attributeName (t : Tag) (name : Bytes)
  | afterAttribute (t : Tag) (name : Bytes)
  | beforeValue (t : Tag) (name : Bytes)
  | quotedValue (quote : Byte) (t : Tag) (name value : Bytes)
  | unquotedValue (t : Tag) (name value : Bytes)
  | declarationOpen
  | declarationDash
  /-- A document type, or what is taken for a comment up to the next `>`. -/
  | declaration
  | commentStart
  | commentStartDash
  | comment
  | commentDash
  | commentEnd
  | commentEndBang

def isLetter (c : Byte) : Bool := 97 ≤ toLowerByte c ∧ toLowerByte c ≤ 122

def isBlank (c : Byte) : Bool := c ∈ [TAB, LF, 12, CR, SP]

def rawTextNames : List Bytes :=
  [ascii "title", ascii "textarea", ascii "style", ascii "xmp", ascii "iframe", ascii "noembed",
    ascii "noframes", ascii "script"]

def Tag.addAttribute (t : Tag) (name value : Bytes) : Tag :=
  { t with attributes := t.attributes ++ [(name, value)] }

/-- A tag is complete. -/
def finish (t : Tag) : Mode × List Token :=
  (if !t.closing ∧ t.name ∈ rawTextNames then .rawText t.name else .data, [.tag t])

def step : Mode → Byte → Mode × List Token
  | .data, c => if c = byteOf '<' then (.tagOpen, []) else (.data, [.char c])
  | .rawText name, c =>
      if c = byteOf '<' then (.rawTagOpen name, []) else (.rawText name, [.char c])
  | .rawTagOpen name, c =>
      if c = SLASH then (.rawEndTag name [], [])
      else if c = byteOf '<' then (.rawTagOpen name, [.char c])
      else (.rawText name, [.char (byteOf '<'), .char c])
  | .rawEndTag name seen, c =>
      if isLetter c then (.rawEndTag name (seen ++ [c]), [])
      else if seen.map toLowerByte = name ∧ (isBlank c ∨ c = SLASH) then
        (.beforeAttribute ⟨true, name, []⟩, [])
      else if seen.map toLowerByte = name ∧ c = byteOf '>' then finish ⟨true, name, []⟩
      else if c = byteOf '<' then (.rawTagOpen name, (ascii "</" ++ seen).map .char)
      else (.rawText name, (ascii "</" ++ seen ++ [c]).map .char)
  | .tagOpen, c =>
      if c = byteOf '!' then (.declarationOpen, [])
      else if c = SLASH then (.endTagOpen, [])
      else if isLetter c then (.tagName false [toLowerByte c], [])
      else if c = QUESTION then (.declaration, [])
      else if c = byteOf '<' then (.tagOpen, [.char c])
      else (.data, [.char (byteOf '<'), .char c])
  | .endTagOpen, c =>
      if isLetter c then (.tagName true [toLowerByte c], [])
      else if c = byteOf '>' then (.data, [])
      else (.declaration, [])
  | .tagName closing name, c =>
      if isBlank c ∨ c = SLASH then (.beforeAttribute ⟨closing, name, []⟩, [])
      else if c = byteOf '>' then finish ⟨closing, name, []⟩
      else (.tagName closing (name ++ [toLowerByte c]), [])
  | .beforeAttribute t, c =>
      if isBlank c ∨ c = SLASH then (.beforeAttribute t, [])
      else if c = byteOf '>' then finish t
      else (.attributeName t [toLowerByte c], [])
  | .attributeName t name, c =>
      if isBlank c then (.afterAttribute t name, [])
      else if c = SLASH then (.beforeAttribute (t.addAttribute name []), [])
      else if c = byteOf '=' then (.beforeValue t name, [])
      else if c = byteOf '>' then finish (t.addAttribute name [])
      else (.attributeName t (name ++ [toLowerByte c]), [])
  | .afterAttribute t name, c =>
      if isBlank c then (.afterAttribute t name, [])
      else if c = SLASH then (.beforeAttribute (t.addAttribute name []), [])
      else if c = byteOf '=' then (.beforeValue t name, [])
      else if c = byteOf '>' then finish (t.addAttribute name [])
      else (.attributeName (t.addAttribute name []) [toLowerByte c], [])
  | .beforeValue t name, c =>
      if isBlank c then (.beforeValue t name, [])
      -- a quotation mark or an apostrophe
      else if c = 34 ∨ c = 39 then (.quotedValue c t name [], [])
      else if c = byteOf '>' then finish (t.addAttribute name [])
      else (.unquotedValue t name [c], [])
  | .quotedValue quote t name value, c =>
      if c = quote then (.beforeAttribute (t.addAttribute name value), [])
      else (.quotedValue quote t name (value ++ [c]), [])
  | .unquotedValue t name value, c =>
      if isBlank c then (.beforeAttribute (t.addAttribute name value), [])
      else if c = byteOf '>' then finish (t.addAttribute name value)
      else (.unquotedValue t name (value ++ [c]), [])
  | .declarationOpen, c =>
      (if c = DASH then .declarationDash else if c = byteOf '>' then .data else .declaration, [])
  | .declarationDash, c =>
      (if c = DASH then .commentStart else if c = byteOf '>' then .data else .declaration, [])
  | .declaration, c => (if c = byteOf '>' then .data else .declaration, [])
  | .commentStart, c =>
      (if c = DASH then .commentStartDash else if c = byteOf '>' then .data else .comment, [])
  | .commentStartDash, c =>
      (if c = DASH then .commentEnd else if c = byteOf '>' then .data else .comment, [])
  | .comment, c => (if c = DASH then .commentDash else .comment, [])
  | .commentDash, c => (if c = DASH then .commentEnd else .comment, [])
  | .commentEnd, c =>
      (if c = byteOf '>' then .data else if c = byteOf '!' then .commentEndBang
        else if c = DASH then .commentEnd else .comment, [])
  | .commentEndBang, c =>
      (if c = DASH then .commentDash else if c = byteOf '>' then .data else .comment, [])

def run : Mode → Bytes → Mode × List Token
  | mode, [] => (mode, [])
  | mode, c :: s =>
      let (next, first) := step mode c
      let (last, rest) := run next s
      (last, first ++ rest)

/-- What begins at the end of a page and is not complete is no token. -/
def tokens (page : Bytes) : List Token := (run .data page).2

example : tokens (ascii "<!-- <b> --><A HREF='x'>y</a>") =
    [.tag ⟨false, ascii "a", [(ascii "href", ascii "x")]⟩, .char (byteOf 'y'),
      .tag ⟨true, ascii "a", []⟩] := by decide

/-! ## Reading piece by piece -/

/-- A text that is read in one mode gives some tokens and ends in another mode. -/
def Reads (mode : Mode) (s : Bytes) (out : List Token) (next : Mode) : Prop :=
  run mode s = (next, out)

theorem run_append (mode : Mode) (s t : Bytes) :
    run mode (s ++ t) =
      ((run (run mode s).1 t).1, (run mode s).2 ++ (run (run mode s).1 t).2) := by
  induction s generalizing mode with
  | nil => rfl
  | cons c s ih => simp only [List.cons_append, run, ih, List.append_assoc]

theorem Reads.refl (mode : Mode) : Reads mode [] [] mode := rfl

theorem Reads.cons {first second third : Mode} {c : Byte} {s : Bytes} {out rest : List Token}
    (hc : step first c = (second, out)) (hs : Reads second s rest third) :
    Reads first (c :: s) (out ++ rest) third := by
  have hrun : run second s = (third, rest) := hs
  simp only [Reads, run, hc, hrun]

theorem Reads.append {first second third : Mode} {s t : Bytes} {out rest : List Token}
    (hs : Reads first s out second) (ht : Reads second t rest third) :
    Reads first (s ++ t) (out ++ rest) third := by
  rw [Reads, run_append, hs, ht]

theorem Reads.flatMap {α : Type} {mode : Mode} {f : α → Bytes} {out : α → List Token}
    {items : List α} (h : ∀ a ∈ items, Reads mode (f a) (out a) mode) :
    Reads mode (items.flatMap f) (items.flatMap out) mode := by
  induction items with
  | nil => exact .refl mode
  | cons a items ih =>
      obtain ⟨ha, hrest⟩ := List.forall_mem_cons.1 h
      exact ha.append (ih hrest)

theorem tokens_eq_of_reads {page : Bytes} {out : List Token} {mode : Mode}
    (h : Reads .data page out mode) : tokens page = out := by
  rw [tokens, h]

theorem reads_chars {mode : Mode} {s : Bytes} (h : ∀ c ∈ s, step mode c = (mode, [.char c])) :
    Reads mode s (s.map .char) mode := by
  induction s with
  | nil => exact .refl mode
  | cons c s ih =>
      obtain ⟨hc, hs⟩ := List.forall_mem_cons.1 h
      exact .cons hc (ih hs)

theorem reads_text {s : Bytes} (h : byteOf '<' ∉ s) : Reads .data s (s.map .char) .data :=
  reads_chars fun _ hc => if_neg (ne_of_mem_of_not_mem hc h)

theorem reads_rawText (name : Bytes) {s : Bytes} (h : byteOf '<' ∉ s) :
    Reads (.rawText name) s (s.map .char) (.rawText name) :=
  reads_chars fun _ hc => if_neg (ne_of_mem_of_not_mem hc h)

theorem reads_value (t : Tag) (name : Bytes) {quote : Byte} {value : Bytes} (front : Bytes)
    (h : quote ∉ value) :
    Reads (.quotedValue quote t name front) value []
      (.quotedValue quote t name (front ++ value)) := by
  induction value generalizing front with
  | nil =>
      rw [List.append_nil]
      exact .refl _
  | cons c value ih =>
      obtain ⟨hc, hvalue⟩ := not_or.1 (mt List.mem_cons.2 h)
      have hstep : step (.quotedValue quote t name front) c =
          (.quotedValue quote t name (front ++ [c]), []) := if_neg (Ne.symm hc)
      have hrest := ih (front ++ [c]) hvalue
      rw [List.append_assoc] at hrest
      exact .cons hstep hrest

/-! ## What the tokens say -/

/-- The name of every tag, and whether it is an end tag. -/
def tagNames (page : List Token) : List (Bool × Bytes) :=
  page.filterMap fun
    | .char _ => none
    | .tag t => some (t.closing, t.name)

/-- The text in front of the first tag. -/
def text : List Token → Bytes
  | .char c :: rest => c :: text rest
  | _ => []

/-- The start tags of that name, with the text behind each of them. -/
def elements (name : Bytes) : List Token → List (Tag × Bytes)
  | [] => []
  | .char _ :: rest => elements name rest
  | .tag t :: rest =>
      if t.closing = false ∧ t.name = name then (t, text rest) :: elements name rest
      else elements name rest

@[simp] theorem tagNames_append (s t : List Token) :
    tagNames (s ++ t) = tagNames s ++ tagNames t := List.filterMap_append

@[simp] theorem tagNames_chars (s : Bytes) : tagNames (s.map .char) = [] := by
  simp [tagNames]

@[simp] theorem text_chars (s : Bytes) (t : Tag) (rest : List Token) :
    text (s.map .char ++ .tag t :: rest) = s := by
  induction s with
  | nil => rfl
  | cons c s ih => exact congrArg _ ih

theorem elements_append {name : Bytes} {front : List Token} (h : elements name front = [])
    (rest : List Token) : elements name (front ++ rest) = elements name rest := by
  induction front with
  | nil => rfl
  | cons token front ih =>
      cases token with
      | char c => exact ih h
      | tag t =>
          rw [elements] at h
          split_ifs at h with hname
          rw [List.cons_append, elements, if_neg hname]
          exact ih h

@[simp] theorem elements_chars (name s : Bytes) : elements name (s.map .char) = [] := by
  induction s with
  | nil => rfl
  | cons c s ih => exact ih

theorem elements_flatMap {α : Type} {name : Bytes} {out : α → List Token}
    {found : α → List (Tag × Bytes)} {items : List α}
    (h : ∀ a ∈ items, ∀ rest, elements name (out a ++ rest) = found a ++ elements name rest)
    (rest : List Token) :
    elements name (items.flatMap out ++ rest) =
      items.flatMap found ++ elements name rest := by
  induction items with
  | nil => rfl
  | cons a items ih =>
      obtain ⟨ha, hrest⟩ := List.forall_mem_cons.1 h
      rw [List.flatMap_cons, List.flatMap_cons, List.append_assoc, ha, ih hrest,
        List.append_assoc]

end Html

end CppHttpd.Foundation
