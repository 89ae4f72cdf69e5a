import CppHttpd.Foundation.Html
import CppHttpd.Http.Handlers.ListingLinks
import CppHttpd.Os.Formatting

/-!
# The markup of a listing

What is escaped makes no tag, wherever it stands.  What is not escaped are the
times and the sizes: a size is a numeral, and a time is one if it fits into the
buffer that it is formatted into.
-/

namespace CppHttpd

open CppHttpd.Foundation Html

/-! ## Times and sizes -/

/-- What `localtime_r` makes of a time. -/
structure LocalTime where
  /-- Years since 1900. -/
  year : Int
  mon : Fin 12
  mday : Fin 32
  hour : Fin 24
  min : Fin 60

/-- `%Y-%m-%d %H:%M`. -/
def LocalTime.text (tm : LocalTime) : Bytes :=
  HttpResponse.intToDecimal (tm.year + 1900) ++ ascii "-" ++ zeroPadded 2 (tm.mon + 1) ++
    ascii "-" ++ zeroPadded 2 tm.mday ++ ascii " " ++ zeroPadded 2 tm.hour ++ ascii ":" ++
    zeroPadded 2 tm.min

/--
`format_mtime` does not look whether `localtime_r` and `strftime` have succeeded.
Where one of them fails the text is what the memory of the buffer happens to hold.
-/
def formatMtime (localtime : Int → Option LocalTime) (memory : Int → Bytes) (t : Int) : Bytes :=
  match localtime t with
  | none => cString (memory t)
  | some tm => if tm.text.length < 20 then tm.text else cString (memory t)

/-- The integer nearest to `n / d`, of two that are as near the even one. -/
def roundHalfEven (n d : Nat) : Nat :=
  let twice := 2 * (n % d)
  if twice < d ∨ twice = d ∧ n / d % 2 = 0 then n / d else n / d + 1

/-- The `double` that an integer is converted to. -/
def toDouble (n : Nat) : Nat :=
  let ulp := 2 ^ (n.log2 - 52)
  roundHalfEven n ulp * ulp

/-- `%.1f` of `n / d`. -/
def oneDecimal (n d : Nat) : Bytes :=
  let tenths := roundHalfEven (10 * n) d
  toDecimal (tenths / 10) ++ ascii "." ++ toDecimal (tenths % 10)

/-- `format_size` from a kilobyte on; a `double` is divided by 1024 without rounding. -/
def formatLargeSize (bytes : Nat) : Bytes :=
  let size := toDouble bytes
  if size < 1024 * 1024 then snprintf 16 (oneDecimal size 1024 ++ ascii "K")
  else snprintf 16 (oneDecimal size (1024 * 1024) ++ ascii "M")

example : formatLargeSize 1536 = ascii "1.5K" ∧ formatLargeSize 5872025 = ascii "5.6M" := by decide

def listingEnvironment (env : Environment) (localtime : Int → Option LocalTime)
    (memory : Int → Bytes) : Environment :=
  { env with
    formatMtime := formatMtime localtime memory
    formatLargeSize := formatLargeSize }

/-- The year has no more than seven characters, so that the time has no more than 19. -/
def LocalTime.Fits (tm : LocalTime) : Prop :=
  -10 ^ 6 < tm.year + 1900 ∧ tm.year + 1900 < 10 ^ 7

def MtimeFits (localtime : Int → Option LocalTime) (t : Int) : Prop :=
  ∃ tm, localtime t = some tm ∧ tm.Fits

theorem LocalTime.length_text_lt_iff (tm : LocalTime) : tm.text.length < 20 ↔ tm.Fits := by
  have htwo : ∀ n : Nat, n < 100 → (zeroPadded 2 n).length = 2 := fun n hn =>
    length_zeroPadded (by decide) hn
  have hmon := htwo (tm.mon + 1) (by omega)
  have hday := htwo tm.mday (by omega)
  have hhour := htwo tm.hour (by omega)
  have hmin := htwo tm.min (by omega)
  have hyear := length_intToDecimal_le_iff (n := tm.year + 1900) (k := 6) (by decide)
  have hlength : tm.text.length = (HttpResponse.intToDecimal (tm.year + 1900)).length + 12 := by
    simp [LocalTime.text, ascii, hmon, hday, hhour, hmin]
  rw [Fits, ← hyear, hlength]
  omega

section

variable {localtime : Int → Option LocalTime} {memory : Int → Bytes}

theorem formatMtime_of_fits {t : Int} {tm : LocalTime} (h : localtime t = some tm)
    (hfits : tm.Fits) : formatMtime localtime memory t = tm.text := by
  rw [formatMtime, h]
  exact if_pos (tm.length_text_lt_iff.2 hfits)

theorem formatMtime_of_not_fits {t : Int} (h : ¬ MtimeFits localtime t) :
    formatMtime localtime memory t = cString (memory t) := by
  unfold formatMtime
  split
  · rfl
  · rename_i tm htm
    exact if_neg fun hlength => h ⟨tm, htm, tm.length_text_lt_iff.1 hlength⟩

theorem not_mem_localTime {c : Byte} (h : isDigit c = false) (hmarks : c ∉ ascii "- :")
    (tm : LocalTime) : c ∉ tm.text := by
  have hmark : ∀ {text : Bytes}, text ⊆ ascii "- :" → c ∉ text :=
    fun hsub hmem => hmarks (hsub hmem)
  have hdash : c ∉ ascii "-" := hmark (by decide)
  have hblank : c ∉ ascii " " := hmark (by decide)
  have hcolon : c ∉ ascii ":" := hmark (by decide)
  simp only [LocalTime.text, List.mem_append, not_or]
  exact ⟨⟨⟨⟨⟨⟨⟨⟨not_mem_intToDecimal h hdash _, hdash⟩, not_mem_zeroPadded h _ _⟩, hdash⟩,
    not_mem_zeroPadded h _ _⟩, hblank⟩, not_mem_zeroPadded h _ _⟩, hcolon⟩,
    not_mem_zeroPadded h _ _⟩

theorem not_mem_oneDecimal {c : Byte} (h : isDigit c = false) (hdot : c ∉ ascii ".") (n d : Nat) :
    c ∉ oneDecimal n d := by
  simp only [oneDecimal, List.mem_append, not_or]
  exact ⟨⟨not_mem_toDecimal h _, hdot⟩, not_mem_toDecimal h _⟩

theorem not_mem_formatSize {c : Byte} (h : isDigit c = false) (hmarks : c ∉ ascii ".KM")
    {env : Environment} (bytes : Nat) :
    c ∉ formatSize (listingEnvironment env localtime memory) bytes := by
  have hmark : ∀ {text : Bytes}, text ⊆ ascii ".KM" → c ∉ text :=
    fun hsub hmem => hmarks (hsub hmem)
  have hunit : ∀ {unit : Bytes}, unit ⊆ ascii ".KM" →
      ∀ n d, c ∉ snprintf 16 (oneDecimal n d ++ unit) := by
    intro unit hsub n d hmem
    rcases List.mem_append.1 (snprintf_subset _ _ hmem) with hmem | hmem
    · exact not_mem_oneDecimal h (hmark (by decide)) n d hmem
    · exact hmark hsub hmem
  unfold formatSize
  split_ifs
  · exact not_mem_toDecimal h bytes
  · simp only [listingEnvironment, formatLargeSize]
    split_ifs
    · exact hunit (by decide) _ _
    · exact hunit (by decide) _ _

end

/-! ## The tokens of a listing -/

/-- `base` in the source. -/
def basePath (uriPath : Bytes) : Bytes :=
  if uriPath = [] ∨ uriPath.getLast? ≠ some SLASH then uriPath ++ [SLASH] else uriPath

def startTag (name : String) : Token := .tag ⟨false, ascii name, []⟩

def endTag (name : String) : Token := .tag ⟨true, ascii name, []⟩

def linkTokens (text : Bytes) : List Token :=
  .tag ⟨false, ascii "a", [(ascii "href", text)]⟩ :: (text.map .char ++ [endTag "a"])

def namePadding (text : Bytes) : Bytes :=
  if text.length < 40 then List.replicate (40 - text.length) SP else [SP]

def sizeColumn (env : Environment) (e : DirEntry) : Bytes :=
  ascii "  " ++ (if e.isDir then ascii "-" else formatSize env e.size) ++ [LF]

def entryTokens (env : Environment) (e : DirEntry) : List Token :=
  linkTokens (htmlEscape (linkText e.name e.isDir)) ++
    (namePadding (htmlEscape (linkText e.name e.isDir))).map .char ++
    tokens (env.formatMtime e.mtime) ++ (sizeColumn env e).map .char

def parentTokens (uriPath : Bytes) : List Token :=
  if basePath uriPath ≠ [SLASH] then linkTokens (ascii "../") ++ [.char LF] else []

def frontTokens : List Token :=
  [.char LF, startTag "html", .char LF, startTag "head",
    .tag ⟨false, ascii "meta", [(ascii "charset", ascii "utf-8")]⟩, startTag "title"]

def bodyTokens : List Token :=
  [endTag "title", endTag "head", .char LF, startTag "body", .char LF, startTag "h1"]

def linesTokens : List Token :=
  [endTag "h1", startTag "hr", .char LF, startTag "pre", .char LF]

def backTokens : List Token :=
  [endTag "pre", startTag "hr", .char LF, endTag "body", .char LF, endTag "html", .char LF]

/-- `title` in the source. -/
def listingTitle (uriPath : Bytes) : Bytes := ascii "Index of " ++ htmlEscape (basePath uriPath)

def listingTokens (env : Environment) (uriPath : Bytes) (entries : List DirEntry) :
    List Token :=
  frontTokens ++ (listingTitle uriPath).map .char ++ bodyTokens ++
    (listingTitle uriPath).map .char ++ linesTokens ++ parentTokens uriPath ++
    entries.flatMap (entryTokens env) ++ backTokens

section

variable {env : Environment}

theorem reads_link {text : Bytes} (hless : byteOf '<' ∉ text) (hquote : byteOf '"' ∉ text) :
    Reads .data (ascii "<a href=\"" ++ text ++ ascii "\">" ++ text ++ ascii "</a>")
      (linkTokens text) .data := by
  have hopen : Reads .data (ascii "<a href=\"") []
      (.quotedValue (byteOf '"') ⟨false, ascii "a", []⟩ (ascii "href") []) := rfl
  have hclose : Reads
      (.quotedValue (byteOf '"') ⟨false, ascii "a", []⟩ (ascii "href") ([] ++ text))
      (ascii "\">") [.tag ⟨false, ascii "a", [(ascii "href", text)]⟩] .data := rfl
  have hend : Reads .data (ascii "</a>") [endTag "a"] .data := rfl
  exact (((hopen.append (reads_value _ _ _ hquote)).append hclose).append
    (reads_text hless)).append hend

theorem less_not_mem_namePadding (text : Bytes) : byteOf '<' ∉ namePadding text := by
  unfold namePadding
  split_ifs
  · exact fun hmem => absurd (List.eq_of_mem_replicate hmem) (by decide)
  · decide

theorem reads_entryLine {e : DirEntry} (hmtime : (run .data (env.formatMtime e.mtime)).1 = .data)
    (hsize : byteOf '<' ∉ formatSize env e.size) :
    Reads .data (entryLine env e) (entryTokens env e) .data := by
  have hlink := reads_link (not_mem_htmlEscape (by decide) (linkText e.name e.isDir))
    (not_mem_htmlEscape (by decide) (linkText e.name e.isDir))
  have htime : Reads .data (env.formatMtime e.mtime) (tokens (env.formatMtime e.mtime)) .data :=
    Prod.ext hmtime rfl
  have hcolumn : byteOf '<' ∉ sizeColumn env e := by
    have hdash : byteOf '<' ∉ ascii "-" := by decide
    simp only [sizeColumn, List.mem_append, not_or]
    refine ⟨⟨by decide, ?_⟩, by decide⟩
    split_ifs
    · exact hdash
    · exact hsize
  have hline : entryLine env e =
      ascii "<a href=\"" ++ htmlEscape (linkText e.name e.isDir) ++ ascii "\">" ++
        htmlEscape (linkText e.name e.isDir) ++ ascii "</a>" ++
        namePadding (htmlEscape (linkText e.name e.isDir)) ++ env.formatMtime e.mtime ++
        sizeColumn env e := by
    simp only [entryLine, linkText, htmlEscape_display, namePadding, sizeColumn,
      List.append_assoc]
  rw [hline]
  exact ((hlink.append (reads_text (less_not_mem_namePadding _))).append htime).append
    (reads_text hcolumn)

theorem reads_listingText (uriPath : Bytes) {entries : List DirEntry}
    (hmtime : ∀ e ∈ entries, (run .data (env.formatMtime e.mtime)).1 = .data)
    (hsize : ∀ bytes, byteOf '<' ∉ formatSize env bytes) :
    Reads .data (listingText env uriPath entries) (listingTokens env uriPath entries) .data := by
  have htitle : byteOf '<' ∉ listingTitle uriPath := by
    rw [listingTitle, List.mem_append, not_or]
    exact ⟨by decide, not_mem_htmlEscape (by decide) _⟩
  have hfront : Reads .data
      (ascii "<!DOCTYPE html>\n<html>\n<head><meta charset=\"utf-8\"><title>") frontTokens
      (.rawText (ascii "title")) := rfl
  have hbody : Reads (.rawText (ascii "title")) (ascii "</title></head>\n<body>\n<h1>")
      bodyTokens .data := rfl
  have hlines : Reads .data (ascii "</h1><hr>\n<pre>\n") linesTokens .data := rfl
  have hparent : Reads .data
      (if basePath uriPath ≠ [SLASH] then ascii "<a href=\"../\">../</a>\n" else [])
      (parentTokens uriPath) .data := by
    unfold parentTokens
    split_ifs
    · rfl
    · rfl
  have hentries : Reads .data (entries.flatMap (entryLine env))
      (entries.flatMap (entryTokens env)) .data :=
    Reads.flatMap fun e he => reads_entryLine (hmtime e he) (hsize e.size)
  have hback : Reads .data (ascii "</pre><hr>\n</body>\n</html>\n") backTokens .data := rfl
  exact ((((((hfront.append (reads_rawText _ htitle)).append hbody).append
    (reads_text htitle)).append hlines).append hparent).append hentries).append hback

end

/-! ## What a client finds -/

def linkTags : List (Bool × Bytes) := [(false, ascii "a"), (true, ascii "a")]

/-- The tags of a listing with those tags in its lines. -/
def pageTags (root : Bool) (lines : List (Bool × Bytes)) : List (Bool × Bytes) :=
  [(false, ascii "html"), (false, ascii "head"), (false, ascii "meta"), (false, ascii "title"),
    (true, ascii "title"), (true, ascii "head"), (false, ascii "body"), (false, ascii "h1"),
    (true, ascii "h1"), (false, ascii "hr"), (false, ascii "pre")] ++
    (if root then [] else linkTags) ++ lines ++
    [(true, ascii "pre"), (false, ascii "hr"), (true, ascii "body"), (true, ascii "html")]

def listingTags (count : Nat) (root : Bool) : List (Bool × Bytes) :=
  pageTags root (List.replicate count linkTags).flatten

/-- Where a link leads, and what is written on it. -/
def readLink (link : Tag × Bytes) : Option Bytes × Bytes :=
  ((link.1.attributes.lookup (ascii "href")).map htmlUnescape, htmlUnescape link.2)

def readTexts (name : String) (page : Bytes) : List Bytes :=
  (elements (ascii name) (tokens page)).map fun element => htmlUnescape element.2

/-- The page has the tags of a listing, and says what it lists and nothing else. -/
structure SafePage (page uriPath : Bytes) (entries : List DirEntry) : Prop where
  tags : tagNames (tokens page) = listingTags entries.length (basePath uriPath = [SLASH])
  title : readTexts "title" page = [ascii "Index of " ++ basePath uriPath]
  heading : readTexts "h1" page = [ascii "Index of " ++ basePath uriPath]
  links : (elements (ascii "a") (tokens page)).map readLink =
    (if basePath uriPath = [SLASH] then [] else [(some (ascii "../"), ascii "../")]) ++
      entries.map fun e => (some (linkText e.name e.isDir), linkText e.name e.isDir)

/-- No time begins a tag. -/
def PlainTimes (env : Environment) (entries : List DirEntry) : Prop :=
  ∀ e ∈ entries, byteOf '<' ∉ env.formatMtime e.mtime

section

variable {env : Environment} {entries : List DirEntry}

theorem tagNames_linkTokens (text : Bytes) : tagNames (linkTokens text) = linkTags := by
  simp [linkTokens, linkTags, endTag, tagNames]

theorem tagNames_entryTokens (e : DirEntry) :
    tagNames (entryTokens env e) = linkTags ++ tagNames (tokens (env.formatMtime e.mtime)) := by
  simp only [entryTokens, tagNames_append, tagNames_chars, tagNames_linkTokens, List.append_nil]

theorem tagNames_listingTokens (uriPath : Bytes) (entries : List DirEntry) :
    tagNames (listingTokens env uriPath entries) =
      pageTags (basePath uriPath = [SLASH])
        (entries.flatMap fun e => tagNames (entryTokens env e)) := by
  have hparent : tagNames (parentTokens uriPath) =
      if basePath uriPath = [SLASH] then [] else linkTags := by
    unfold parentTokens
    by_cases hroot : basePath uriPath = [SLASH]
    · rw [if_pos hroot, if_neg (not_not_intro hroot)]
      rfl
    · rw [if_neg hroot, if_pos hroot, tagNames_append, tagNames_linkTokens]
      rfl
  have hentries : tagNames (entries.flatMap (entryTokens env)) =
      entries.flatMap fun e => tagNames (entryTokens env e) := by
    simp [tagNames, List.filterMap_flatMap]
  simp only [listingTokens, tagNames_append, tagNames_chars, hparent, hentries, pageTags,
    decide_eq_true_eq]
  rfl

theorem tags_of_text {uriPath : Bytes} (htext : PlainTimes env entries) :
    tagNames (listingTokens env uriPath entries) =
      listingTags entries.length (basePath uriPath = [SLASH]) := by
  rw [tagNames_listingTokens, listingTags, List.flatMap, ← List.map_const']
  congr 2
  apply List.map_congr_left
  intro e he
  rw [tagNames_entryTokens, tokens_eq_of_reads (reads_text (htext e he)), tagNames_chars,
    List.append_nil]

/-- A tag in a time is one more than there should be. -/
theorem not_tags_of_mem {uriPath : Bytes} {e : DirEntry} (he : e ∈ entries)
    {tag : Bool × Bytes} (hmem : tag ∈ tagNames (tokens (env.formatMtime e.mtime)))
    (hother : tag ∉ pageTags false linkTags) :
    tagNames (listingTokens env uriPath entries) ≠
      listingTags entries.length (basePath uriPath = [SLASH]) := by
  intro heq
  have hline : tag ∈ tagNames (entryTokens env e) := by
    rw [tagNames_entryTokens]
    exact List.mem_append_right _ hmem
  have hpage : tag ∈ tagNames (listingTokens env uriPath entries) := by
    rw [tagNames_listingTokens, pageTags]
    exact List.mem_append_left _ (List.mem_append_right _ (List.mem_flatMap_of_mem he hline))
  have hlinks : tag ∈ (List.replicate entries.length linkTags).flatten → tag ∈ linkTags := by
    intro hmem
    obtain ⟨link, hlink, hmem⟩ := List.mem_flatten.1 hmem
    rwa [List.eq_of_mem_replicate hlink] at hmem
  rw [heq, listingTags] at hpage
  apply hother
  simp only [pageTags, List.mem_append] at hpage ⊢
  rcases hpage with ((hpage | hpage) | hpage) | hpage
  · exact .inl (.inl (.inl hpage))
  · split_ifs at hpage
    · cases hpage
    · exact .inl (.inr hpage)
  · exact .inl (.inr (hlinks hpage))
  · exact .inr hpage

/-! ## The texts of a listing -/

theorem elements_link (text : Bytes) (rest : List Token) :
    elements (ascii "a") (linkTokens text ++ rest) =
      (⟨false, ascii "a", [(ascii "href", text)]⟩, text) :: elements (ascii "a") rest := by
  have hend : elements (ascii "a") [endTag "a"] = [] := rfl
  have htext : Html.text (text.map .char ++ ([endTag "a"] ++ rest)) = text := text_chars _ _ _
  rw [linkTokens, List.cons_append, List.append_assoc, elements, if_pos ⟨rfl, rfl⟩,
    elements_append (elements_chars _ _), elements_append hend, htext]

theorem elements_linkTokens {name : Bytes} (hname : name ≠ ascii "a") (text : Bytes) :
    elements name (linkTokens text) = [] := by
  have hend : elements name [endTag "a"] = [] := if_neg fun h => Bool.noConfusion h.1
  rw [linkTokens, elements, if_neg fun h => hname h.2.symm, elements_append (elements_chars _ _),
    hend]

/-- Behind a link there is nothing but text in its line. -/
theorem elements_columns {e : DirEntry} (htext : byteOf '<' ∉ env.formatMtime e.mtime)
    (name padding : Bytes) (rest : List Token) :
    elements name (padding.map .char ++
      (tokens (env.formatMtime e.mtime) ++ ((sizeColumn env e).map .char ++ rest))) =
      elements name rest := by
  rw [tokens_eq_of_reads (reads_text htext), elements_append (elements_chars _ _),
    elements_append (elements_chars _ _), elements_append (elements_chars _ _)]

theorem elements_entries (htext : PlainTimes env entries) (rest : List Token) :
    elements (ascii "a") (entries.flatMap (entryTokens env) ++ rest) =
      (entries.flatMap fun e =>
        [(⟨false, ascii "a", [(ascii "href", htmlEscape (linkText e.name e.isDir))]⟩,
          htmlEscape (linkText e.name e.isDir))]) ++ elements (ascii "a") rest := by
  apply elements_flatMap
  intro e he rest
  simp only [entryTokens, List.append_assoc, elements_link, elements_columns (htext e he),
    List.singleton_append]

/-- Below the heading there are no elements but links and rules. -/
theorem elements_lines {name : Bytes} (hname : name ≠ ascii "a")
    (hlines : elements name linesTokens = []) (hback : elements name backTokens = [])
    (uriPath : Bytes) (htext : PlainTimes env entries) :
    elements name (linesTokens ++ (parentTokens uriPath ++
      (entries.flatMap (entryTokens env) ++ backTokens))) = [] := by
  have hparent : elements name (parentTokens uriPath) = [] := by
    unfold parentTokens
    split_ifs
    · exact elements_append (elements_linkTokens hname _) _
    · rfl
  have hentry : ∀ e ∈ entries, ∀ rest,
      elements name (entryTokens env e ++ rest) = [] ++ elements name rest := by
    intro e he rest
    simp only [entryTokens, List.append_assoc, List.nil_append,
      elements_append (elements_linkTokens hname _), elements_columns (htext e he)]
  have hnone : (entries.flatMap fun _ => ([] : List (Tag × Bytes))) = [] :=
    List.flatMap_eq_nil_iff.2 fun _ _ => rfl
  rw [elements_append hlines, elements_append hparent, elements_flatMap hentry, hnone, hback]
  rfl

theorem elements_title (uriPath : Bytes) (htext : PlainTimes env entries) :
    elements (ascii "title") (listingTokens env uriPath entries) =
      [(⟨false, ascii "title", []⟩, listingTitle uriPath)] := by
  have hfront : ∀ rest, elements (ascii "title") (frontTokens ++ rest) =
      (⟨false, ascii "title", []⟩, text rest) :: elements (ascii "title") rest := fun _ => rfl
  have htitle : ∀ rest, text ((listingTitle uriPath).map .char ++ (bodyTokens ++ rest)) =
      listingTitle uriPath := fun _ => text_chars _ _ _
  have hbody : elements (ascii "title") bodyTokens = [] := rfl
  have hother : ascii "title" ≠ ascii "a" := by decide
  have hlines := elements_lines hother rfl rfl uriPath htext
  simp only [listingTokens, List.append_assoc]
  rw [hfront, htitle, elements_append (elements_chars _ _), elements_append hbody,
    elements_append (elements_chars _ _), hlines]

theorem elements_h1 (uriPath : Bytes) (htext : PlainTimes env entries) :
    elements (ascii "h1") (listingTokens env uriPath entries) =
      [(⟨false, ascii "h1", []⟩, listingTitle uriPath)] := by
  have hfront : elements (ascii "h1") frontTokens = [] := rfl
  have hbody : ∀ rest, elements (ascii "h1") (bodyTokens ++ rest) =
      (⟨false, ascii "h1", []⟩, text rest) :: elements (ascii "h1") rest := fun _ => rfl
  have htitle : ∀ rest, text ((listingTitle uriPath).map .char ++ (linesTokens ++ rest)) =
      listingTitle uriPath := fun _ => text_chars _ _ _
  have hother : ascii "h1" ≠ ascii "a" := by decide
  have hlines := elements_lines hother rfl rfl uriPath htext
  simp only [listingTokens, List.append_assoc]
  rw [elements_append hfront, elements_append (elements_chars _ _), hbody, htitle,
    elements_append (elements_chars _ _), hlines]

theorem readLink_link (s : Bytes) :
    readLink (⟨false, ascii "a", [(ascii "href", htmlEscape s)]⟩, htmlEscape s) = (some s, s) := by
  simp [readLink, htmlUnescape_htmlEscape]

theorem readLinks_listing (uriPath : Bytes) (htext : PlainTimes env entries) :
    (elements (ascii "a") (listingTokens env uriPath entries)).map readLink =
      (if basePath uriPath = [SLASH] then [] else [(some (ascii "../"), ascii "../")]) ++
        entries.map fun e => (some (linkText e.name e.isDir), linkText e.name e.isDir) := by
  have hfront : elements (ascii "a") frontTokens = [] := rfl
  have hbody : elements (ascii "a") bodyTokens = [] := rfl
  have hlines : elements (ascii "a") linesTokens = [] := rfl
  have hback : elements (ascii "a") backTokens = [] := rfl
  have hparent : ∀ rest, (elements (ascii "a") (parentTokens uriPath ++ rest)).map readLink =
      (if basePath uriPath = [SLASH] then [] else [(some (ascii "../"), ascii "../")]) ++
        (elements (ascii "a") rest).map readLink := by
    intro rest
    unfold parentTokens
    by_cases hroot : basePath uriPath = [SLASH]
    · rw [if_pos hroot, if_neg (not_not_intro hroot)]
      rfl
    · rw [if_neg hroot, if_pos hroot, List.append_assoc, elements_link]
      rfl
  simp only [listingTokens, List.append_assoc]
  rw [elements_append hfront, elements_append (elements_chars _ _), elements_append hbody,
    elements_append (elements_chars _ _), elements_append hlines, hparent, elements_entries htext,
    hback, List.append_nil, List.map_flatMap, List.map_eq_flatMap]
  simp only [List.map_cons, List.map_nil, readLink_link]

theorem htmlUnescape_listingTitle (uriPath : Bytes) :
    htmlUnescape (listingTitle uriPath) = ascii "Index of " ++ basePath uriPath := by
  have hfront : htmlEscape (ascii "Index of ") = ascii "Index of " := by decide
  rw [listingTitle, ← hfront, ← htmlEscape_append, htmlUnescape_htmlEscape, hfront]

theorem safePage_of_text (uriPath : Bytes) (htext : PlainTimes env entries)
    (hsize : ∀ bytes, byteOf '<' ∉ formatSize env bytes) :
    SafePage (listingText env uriPath entries) uriPath entries := by
  have hmtime : ∀ e ∈ entries, (run .data (env.formatMtime e.mtime)).1 = .data :=
    fun e he => congrArg Prod.fst (reads_text (htext e he))
  have htokens := tokens_eq_of_reads (reads_listingText uriPath hmtime hsize)
  constructor
  case tags => rw [htokens, tags_of_text htext]
  case title =>
    rw [readTexts, htokens, elements_title uriPath htext, List.map_singleton,
      htmlUnescape_listingTitle]
  case heading =>
    rw [readTexts, htokens, elements_h1 uriPath htext, List.map_singleton,
      htmlUnescape_listingTitle]
  case links => rw [htokens, readLinks_listing uriPath htext]

theorem not_safePage_of_tag (uriPath : Bytes)
    (hmtime : ∀ t, (run .data (env.formatMtime t)).1 = .data)
    (hsize : ∀ bytes, byteOf '<' ∉ formatSize env bytes) {e : DirEntry} (he : e ∈ entries)
    {tag : Bool × Bytes} (hmem : tag ∈ tagNames (tokens (env.formatMtime e.mtime)))
    (hother : tag ∉ pageTags false linkTags) :
    ¬ SafePage (listingText env uriPath entries) uriPath entries := by
  intro hsafe
  have htags := hsafe.tags
  rw [tokens_eq_of_reads (reads_listingText uriPath (fun e _ => hmtime e.mtime) hsize)] at htags
  exact not_tags_of_mem he hmem hother htags

end

/-! ## When a listing is safe -/

section

variable {env : Environment} {localtime : Int → Option LocalTime}

theorem safePage_of_fits (memory : Int → Bytes) (uriPath : Bytes) {entries : List DirEntry}
    (hfits : ∀ e ∈ entries, MtimeFits localtime e.mtime) :
    SafePage (listingText (listingEnvironment env localtime memory) uriPath entries)
      uriPath entries := by
  apply safePage_of_text
  · intro e he
    obtain ⟨tm, htm, htime⟩ := hfits e he
    have htext : (listingEnvironment env localtime memory).formatMtime e.mtime = tm.text :=
      formatMtime_of_fits htm htime
    rw [htext]
    exact not_mem_localTime (by decide) (by decide) tm
  · exact fun bytes => not_mem_formatSize (by decide) (by decide) bytes

/-- If a time does not fit, a tag that is left in its buffer is a tag of the page. -/
theorem not_safePage_of_not_fits {left : Bytes} (hleft : (run .data (cString left)).1 = .data)
    (htag : (false, ascii "b") ∈ tagNames (tokens (cString left))) (uriPath : Bytes)
    {entries : List DirEntry} {e : DirEntry} (he : e ∈ entries)
    (hfits : ¬ MtimeFits localtime e.mtime) :
    ¬ SafePage (listingText (listingEnvironment env localtime fun _ => left) uriPath entries)
      uriPath entries := by
  have hmtime : ∀ t, (run .data (formatMtime localtime (fun _ => left) t)).1 = .data := by
    intro t
    by_cases ht : MtimeFits localtime t
    · obtain ⟨tm, htm, htime⟩ := ht
      rw [formatMtime_of_fits htm htime]
      exact congrArg Prod.fst (reads_text (not_mem_localTime (by decide) (by decide) tm))
    · rw [formatMtime_of_not_fits ht]
      exact hleft
  have hmem : (false, ascii "b") ∈
      tagNames (tokens (formatMtime localtime (fun _ => left) e.mtime)) := by
    rw [formatMtime_of_not_fits hfits]
    exact htag
  exact not_safePage_of_tag uriPath hmtime
    (fun bytes => not_mem_formatSize (by decide) (by decide) bytes) he hmem (by decide)

/--
`html_escape` can be undone, and whatever the memory of the server holds a listing
has the tags and the texts that it should have exactly if the times of all its
entries fit into the buffer that they are formatted into.
-/
theorem listing_safe_iff (env : Environment) (localtime : Int → Option LocalTime)
    (uriPath : Bytes) (entries : List DirEntry) :
    Function.Injective htmlEscape ∧
      ((∀ memory, SafePage (listingText (listingEnvironment env localtime memory) uriPath entries)
        uriPath entries) ↔ ∀ e ∈ entries, MtimeFits localtime e.mtime) := by
  refine ⟨htmlEscape_injective, fun hsafe e he => ?_, fun hfits memory => ?_⟩
  · by_contra hfits
    have htag : (false, ascii "b") ∈ tagNames (tokens (cString (ascii "<b>"))) := by decide
    exact not_safePage_of_not_fits rfl htag uriPath he hfits (hsafe _)
  · exact safePage_of_fits memory uriPath hfits

/-! ## The listing of a directory -/

/-- The entries of a directory, in the order of its listing. -/
def listedEntries (fs : FileSystem) (dirPath : Bytes) (i : Inode) : List DirEntry :=
  (((fs.names i).filter fun name => name ≠ ascii "." ∧ name ≠ ascii "..").map
    (dirEntry fs dirPath)).mergeSort entryBefore

theorem buildListing_eq_listingText {dirPath : Bytes} {i : Inode}
    (hreach : env.fs.reach dirPath = some i)
    (hlisted : env.fs.isDirectory i = true ∧ env.fs.readable i = true) (uriPath : Bytes)
    (s : OsState) :
    (buildListing env uriPath dirPath s).1 =
      listingText env uriPath (listedEntries env.fs dirPath i) := by
  simp only [buildListing, hreach, hlisted, and_self, if_true]
  rfl

theorem safePage_buildListing (memory : Int → Bytes) {dirPath : Bytes} {i : Inode}
    (hreach : env.fs.reach dirPath = some i)
    (hlisted : env.fs.isDirectory i = true ∧ env.fs.readable i = true)
    (hfits : ∀ name ∈ env.fs.names i, MtimeFits localtime (dirEntry env.fs dirPath name).mtime)
    (uriPath : Bytes) (s : OsState) :
    SafePage (buildListing (listingEnvironment env localtime memory) uriPath dirPath s).1
      uriPath (listedEntries env.fs dirPath i) := by
  have hreach' : (listingEnvironment env localtime memory).fs.reach dirPath = some i := hreach
  rw [buildListing_eq_listingText hreach' hlisted]
  apply safePage_of_fits
  intro e he
  obtain ⟨name, hname, rfl⟩ := List.mem_map.1 (List.mem_mergeSort.1 he)
  exact hfits name (List.mem_filter.1 hname).1

end

/--
A file with a time in the year 35680317.  There is room for the text up to the last
two digits, and a tag in the memory behind it.
-/
theorem not_safePage_late :
    ¬ ∀ env localtime memory uriPath entries,
      SafePage (listingText (listingEnvironment env localtime memory) uriPath entries)
        uriPath entries := by
  intro hall
  have hlate : ¬ MtimeFits
      (fun _ => some { year := 35678417, mon := 8, mday := 25, hour := 18, min := 57 })
      (2 ^ 50) := by
    rintro ⟨tm, htm, -, hyear⟩
    obtain rfl := Option.some.inj htm
    exact absurd hyear (by decide)
  have htag : (false, ascii "b") ∈
      tagNames (tokens (cString (ascii "35680317-09-25 18:<b>"))) := by decide
  exact not_safePage_of_not_fits rfl htag (ascii "/docs/") (List.mem_singleton_self _) hlate
    (hall docsEnvironment _ _ (ascii "/docs/") [{ name := ascii "a.txt", mtime := 2 ^ 50 }])

end CppHttpd
