import CppHttpd.Foundation.UriReference
import CppHttpd.Http.Handlers.Route
import CppHttpd.Http.Routing.AcceptedPath

/-!
# The links of a listing

A link is the name of its entry, escaped for HTML and for nothing else.  A client
takes it from the directory of the URI that it has asked for, which need not be
the directory that the server has listed, and reads some names as other things.
-/

namespace CppHttpd

open CppHttpd.Foundation

/-! ## Reading a line of the listing -/

/-- A byte in front of a text that has been read; an ampersand may begin a reference. -/
def unescapeByte (c : Byte) (s : Bytes) : Bytes :=
  if c = byteOf '&' then
    if ascii "amp;" <+: s then byteOf '&' :: s.drop 4
    else if ascii "lt;" <+: s then byteOf '<' :: s.drop 3
    else if ascii "gt;" <+: s then byteOf '>' :: s.drop 3
    else if ascii "quot;" <+: s then byteOf '"' :: s.drop 5
    else c :: s
  else c :: s

def htmlUnescape (s : Bytes) : Bytes := s.foldr unescapeByte []

def hrefOf (line : Bytes) : Option Bytes := do
  let s ← expect (ascii "<a href=\"") line
  let (value, _) ← cutAt (byteOf '"') s
  return htmlUnescape value

theorem unescape_htmlEscapeByte (c : Byte) (s : Bytes) :
    (htmlEscapeByte c).foldr unescapeByte s = c :: s := by
  have hother : ∀ {d : Byte} (t : Bytes), d ≠ byteOf '&' → unescapeByte d t = d :: t :=
    fun t hd => if_neg hd
  unfold htmlEscapeByte
  split_ifs with hamp hlt hgt hquot
  · subst hamp
    have hrest : (ascii "amp;").foldr unescapeByte s = ascii "amp;" ++ s := rfl
    change unescapeByte (byteOf '&') ((ascii "amp;").foldr unescapeByte s) = _
    rw [hrest, unescapeByte, if_pos rfl, if_pos (List.prefix_append _ s)]
    rfl
  · subst hlt
    rfl
  · subst hgt
    rfl
  · subst hquot
    rfl
  · exact hother s hamp

theorem htmlUnescape_htmlEscape (s : Bytes) : htmlUnescape (htmlEscape s) = s := by
  induction s with
  | nil => rfl
  | cons c s ih =>
      rw [htmlUnescape, htmlEscape, List.flatMap_cons, List.foldr_append, ← htmlEscape,
        ← htmlUnescape, ih, unescape_htmlEscapeByte]

theorem htmlEscape_injective : Function.Injective htmlEscape :=
  Function.LeftInverse.injective htmlUnescape_htmlEscape

theorem not_mem_htmlEscape {c : Byte} (hc : c ∈ ascii "<>\"") (s : Bytes) : c ∉ htmlEscape s := by
  intro hmem
  obtain ⟨d, -, hd⟩ := List.mem_flatMap.1 hmem
  have hmark : ∀ {text : Bytes}, text.all (fun d => decide (d ∉ ascii "<>\"")) = true → c ∉ text :=
    fun htext hmem => forall_mem_of_all htext c hmem hc
  unfold htmlEscapeByte at hd
  split_ifs at hd with hamp hlt hgt hquot
  · exact hmark (by decide) hd
  · exact hmark (by decide) hd
  · exact hmark (by decide) hd
  · exact hmark (by decide) hd
  · obtain rfl := List.mem_singleton.1 hd
    have hmarks : ascii "<>\"" = [byteOf '<', byteOf '>', byteOf '"'] := rfl
    simp [hmarks, hlt, hgt, hquot] at hc

theorem htmlEscape_append (s t : Bytes) : htmlEscape (s ++ t) = htmlEscape s ++ htmlEscape t :=
  List.flatMap_append

theorem htmlEscape_display (name : Bytes) (isDir : Bool) :
    htmlEscape (name ++ if isDir then [SLASH] else []) =
      htmlEscape name ++ if isDir then [SLASH] else [] := by
  have hslash : htmlEscape [SLASH] = [SLASH] := by decide
  rw [htmlEscape_append]
  cases isDir with
  | false => rfl
  | true => rw [if_pos rfl, hslash]

/-- A link is the name, with a slash behind it if it is that of a directory. -/
theorem hrefOf_entryLine (env : Environment) (e : DirEntry) :
    hrefOf (entryLine env e) = some (e.name ++ if e.isDir then [SLASH] else []) := by
  have hquote : byteOf '"' ∉ htmlEscape (e.name ++ if e.isDir then [SLASH] else []) :=
    not_mem_htmlEscape (by decide) _
  have hcut : ∀ rest, cutAt (byteOf '"')
      (htmlEscape (e.name ++ if e.isDir then [SLASH] else []) ++ byteOf '"' :: rest) =
      some (htmlEscape (e.name ++ if e.isDir then [SLASH] else []), rest) :=
    fun rest => cutAt_eq_some_iff.2 ⟨hquote, rfl⟩
  have hend : ascii "\">" = byteOf '"' :: ascii ">" := rfl
  unfold hrefOf entryLine
  simp only [← htmlEscape_display, hend, List.append_assoc, List.cons_append,
    expect_eq_some_iff.2 rfl, Option.bind_eq_bind, Option.bind_some, hcut,
    htmlUnescape_htmlEscape]
  rfl

/-! ## Following a link -/

/-- A request target in origin form has a slash in front. -/
def originForm (uri : Bytes) : Bytes := if uri.head? = some SLASH then uri else SLASH :: uri

/-- What a client takes the links of a response from. -/
def requestTarget (request : HttpRequest) : Target := parseTarget (originForm request.uri)

/-- The segments of the directory in which a client looks for the names of a listing. -/
def clientDirectory (request : HttpRequest) : List Bytes :=
  (requestTarget request).directory.filter (· ≠ [])

/-- An entry of a directory that a request has come to and that is listed for it. -/
structure ListedEntry (env : Environment) (config : Config) (request : HttpRequest)
    (vhost : VirtualHost) (dirPath name : Bytes) : Prop where
  route : route env config request = .directory vhost dirPath
  listed : indexFile env.fs dirPath request vhost.documentRoot = none
  entry : ∃ i, env.fs.reach dirPath = some i ∧ env.fs.isDirectory i = true ∧
    env.fs.readable i = true ∧ name ∈ env.fs.names i
  notDot : name ≠ ascii "." ∧ name ≠ ascii ".."
  /-- What `readdir` returns is the name of a file. -/
  fileName : name ≠ [] ∧ NUL ∉ name ∧ SLASH ∉ name

/-- The listing has a line for the entry, and the link in it leads to the entry. -/
def LinkLeads (env : Environment) (request : HttpRequest) (vhost : VirtualHost)
    (dirPath name : Bytes) : Prop :=
  let line := entryLine env (dirEntry env.fs dirPath name)
  (∀ s, ∃ front back s', serveDirectoryIndex env dirPath request vhost.documentRoot s =
    (.ok (listingResponse (front ++ line ++ back)), s')) ∧
  ∃ href target, hrefOf line = some href ∧
    (requestTarget request).follow (parseReference href) = some target ∧
    resolvePath vhost (splitUri target.toBytes).1 = (dirPath ++ [SLASH] ++ name, true)

/-- The client is in the directory that is listed, and the name has no mark with a meaning. -/
structure PlainLink (request : HttpRequest) (vhost : VirtualHost) (dirPath name : Bytes) :
    Prop where
  notRoot : dirPath ≠ [SLASH]
  directory : normalSegments dirPath =
    normalSegments vhost.documentRoot ++ clientDirectory request
  noMark : ∀ c ∈ name, c ∉ ascii "?#"
  noScheme : COLON ∈ name → name.head? = some COLON

section

variable {env : Environment} {config : Config} {request : HttpRequest} {vhost : VirtualHost}
  {dirPath name : Bytes}

theorem entryLine_infix (uriPath : Bytes) {entries : List DirEntry} {e : DirEntry}
    (he : e ∈ entries) : entryLine env e <:+: listingText env uriPath entries := by
  have hlines : entryLine env e <:+: entries.flatMap (entryLine env) := by
    obtain ⟨before, after, rfl⟩ := List.append_of_mem he
    rw [List.flatMap_append, List.flatMap_cons, ← List.append_assoc]
    exact List.infix_append _ _ _
  exact hlines.trans (List.infix_append _ _ _)

theorem ListedEntry.line (h : ListedEntry env config request vhost dirPath name) (s : OsState) :
    ∃ front back s', serveDirectoryIndex env dirPath request vhost.documentRoot s =
      (.ok (listingResponse (front ++ entryLine env (dirEntry env.fs dirPath name) ++ back)),
        s') := by
  obtain ⟨i, hreach, hdir, hreadable, hmem⟩ := h.entry
  have hentry : dirEntry env.fs dirPath name ∈
      (((env.fs.names i).filter fun name => name ≠ ascii "." ∧ name ≠ ascii "..").map
        (dirEntry env.fs dirPath)).mergeSort entryBefore := by
    rw [List.mem_mergeSort]
    apply List.mem_map_of_mem
    simpa [hmem] using h.notDot
  have hbuild : ∀ uriPath, entryLine env (dirEntry env.fs dirPath name) <:+:
      (buildListing env uriPath dirPath s).1 := by
    intro uriPath
    simp only [buildListing, hreach, hdir, hreadable, and_self, if_true]
    exact entryLine_infix uriPath hentry
  have hne : ∀ front back : Bytes,
      front ++ entryLine env (dirEntry env.fs dirPath name) ++ back ≠ [] := by
    simp [entryLine, ascii]
  unfold serveDirectoryIndex
  rw [h.listed]
  dsimp only
  split
  all_goals
    obtain ⟨front, back, hbody⟩ := hbuild _
    rw [← hbody, if_neg (hne front back)]
    exact ⟨front, back, _, rfl⟩

/-! ## Where the links lead -/

theorem ListedEntry.plainName (h : ListedEntry env config request vhost dirPath name) :
    PlainName name :=
  ⟨h.fileName.2.2, (plain_iff name).2 ⟨h.fileName.1, h.notDot.1, h.notDot.2⟩⟩

theorem ListedEntry.accepted (h : ListedEntry env config request vhost dirPath name) :
    resolvePath vhost (requestPath request) = (dirPath, true) := by
  have hroute := h.route
  have hcontent : ∀ {host path st}, contentRoute request host path st = .directory vhost dirPath →
      host = vhost ∧ path = dirPath := by
    intro host path st heq
    unfold contentRoute at heq
    split_ifs at heq
    cases hkind : st.kind with
    | regular => simp [hkind] at heq
    | directory => simpa [hkind] using heq
    | other => simp [hkind] at heq
  unfold CppHttpd.route at hroute
  split at hroute
  · cases hroute
  · rename_i host _
    unfold accessRoute at hroute
    split_ifs at hroute with hload hunder
    dsimp only at hroute
    split at hroute
    · cases hroute
    · split at hroute
      · obtain ⟨rfl, hpath⟩ := hcontent hroute
        rw [← hpath, Prod.ext_iff]
        exact ⟨rfl, by simpa using hunder⟩
      · cases hroute
      · cases hroute

theorem splitUri_toBytes {target : Target} (h : QUESTION ∉ target.path) :
    (splitUri target.toBytes).1 = target.path := by
  unfold splitUri Target.toBytes
  cases target.query with
  | none =>
      rw [Option.elim_none, List.append_nil]
      split
      · rfl
      · rename_i q hq
        rw [find_none h] at hq
        cases hq
  | some query =>
      rw [Option.elim_some]
      split
      · rename_i hq
        rw [find_append_cons h] at hq
        cases hq
      · rename_i q hq
        rw [find_append_cons h] at hq
        obtain rfl := Option.some.inj hq
        simp

theorem requestTarget_head (request : HttpRequest) :
    (requestTarget request).path.head? = some SLASH := by
  have hslash : SLASH ∉ ascii "?#" := by decide
  have horigin : ∃ rest, originForm request.uri = SLASH :: rest := by
    unfold originForm
    split_ifs with hhead
    · cases huri : request.uri with
      | nil => simp [huri] at hhead
      | cons c rest => exact ⟨rest, by simpa [huri] using hhead⟩
    · exact ⟨request.uri, rfl⟩
  obtain ⟨rest, hrest⟩ := horigin
  rw [requestTarget, parseTarget, hrest, List.takeWhile_cons_of_pos (by simpa using hslash)]
  rfl

/-- A client never comes to a name with a mark: what it comes to has none in its path. -/
theorem not_mem_of_run {c : Byte} {path : Bytes} (hpath : c ∉ path) {root dir : List Bytes}
    (hle : root.length ≤ dir.length)
    (hrun : pathRule.run root (segments path) = dir ++ [name]) : c ∉ name := by
  have htake := StackRule.run_eq_take (R := pathRule) (segments path) root []
  rw [List.append_nil, hrun] at htake
  have hsegs : ∀ seg ∈ pathRule.run [] (segments path), c ∉ seg := fun seg hmem =>
    (StackRule.mem_run (R := pathRule) (P := (c ∉ ·)) (by simp)
      (fun seg hseg hc => hpath (mem_of_mem_splitOn SLASH hseg hc)) seg hmem).1
  apply hsegs
  rcases (pathRule.run [] (segments path)).eq_nil_or_concat with hnil | ⟨init, last, hlast⟩
  · rw [hnil, List.append_nil] at htake
    have hlen := congrArg List.length htake
    simp only [List.length_append, List.length_singleton, List.length_take] at hlen
    omega
  · rw [hlast, List.concat_eq_append, ← List.append_assoc] at htake
    obtain ⟨-, hname⟩ := List.append_inj' htake rfl
    rw [hlast, (List.cons.inj hname).1]
    simp

/-- The link of an entry: its name, and a slash behind that of a directory. -/
def linkText (name : Bytes) (isDir : Bool) : Bytes := name ++ if isDir then [SLASH] else []

theorem linkText_head (hname : PlainName name) (isDir : Bool) :
    linkText name isDir ≠ [] ∧ (linkText name isDir).head? ≠ some SLASH := by
  obtain ⟨hne, -⟩ := (plain_iff name).1 hname.plain
  obtain ⟨c, rest, rfl⟩ := List.exists_cons_of_ne_nil hne
  have hc : SLASH ≠ c := fun heq => hname.noSlash (heq ▸ List.mem_cons_self)
  exact ⟨by simp [linkText], by simpa [linkText] using Ne.symm hc⟩

theorem linkText_noMark (hmark : ∀ c ∈ name, c ∉ ascii "?#") (isDir : Bool) :
    ∀ c ∈ linkText name isDir, c ∉ ascii "?#" := by
  have hslash : SLASH ∉ ascii "?#" := by decide
  intro c hmem
  rcases List.mem_append.1 hmem with hmem | hmem
  · exact hmark c hmem
  · split_ifs at hmem
    · obtain rfl := List.mem_singleton.1 hmem
      exact hslash
    · cases hmem

theorem segments_linkText (hname : PlainName name) (isDir : Bool) :
    segments (linkText name isDir) = name :: if isDir then [[]] else [] := by
  unfold linkText
  split_ifs
  · rw [segments_append_slash, hname.segments]
    rfl
  · rw [List.append_nil, hname.segments]

theorem cutScheme_of_plainLink (hscheme : COLON ∈ name → name.head? = some COLON)
    (isDir : Bool) : cutScheme (linkText name isDir) = (none, linkText name isDir) := by
  by_cases hcolon : COLON ∈ name
  · obtain ⟨rest, rfl⟩ : ∃ rest, name = COLON :: rest := by
      have hhead := hscheme hcolon
      cases name with
      | nil => cases hcolon
      | cons c rest => exact ⟨rest, by simpa using hhead⟩
    exact cutScheme_of_colon (List.forall_mem_nil _)
  · apply cutScheme_of_noColon
    rw [linkText, List.mem_append, not_or]
    refine ⟨hcolon, ?_⟩
    cases isDir <;> decide

/-- A client takes what is in front of a colon for a scheme. -/
theorem cutScheme_isSome (hname : PlainName name) (hmark : ∀ c ∈ name, c ∉ ascii "?#")
    (hcolon : COLON ∈ name) (hhead : name.head? ≠ some COLON) (isDir : Bool) :
    (cutScheme (linkText name isDir)).1.isSome = true := by
  obtain ⟨front, rest, rfl, hfront⟩ := List.eq_append_cons_of_mem hcolon
  have hmarks : ∀ c ∈ front, c ∉ ascii ":/?#" := by
    intro c hc
    have hslash : c ≠ SLASH := fun heq => hname.noSlash (by simp [← heq, hc])
    have hne : c ≠ COLON := fun heq => hfront (heq ▸ hc)
    have hother : c ∉ ascii "?#" := hmark c (by simp [hc])
    have hall : ascii ":/?#" = [COLON, SLASH] ++ ascii "?#" := by decide
    rw [hall, List.mem_append, not_or]
    exact ⟨by simp [hne, hslash], hother⟩
  have hne : front ≠ [] := by
    rintro rfl
    exact hhead rfl
  have htext : linkText (front ++ COLON :: rest) isDir =
      front ++ COLON :: (rest ++ if isDir then [SLASH] else []) := by simp [linkText]
  rw [htext, cutScheme_of_colon hmarks, if_neg hne]
  rfl

/-- The server finds a client's directory and a name of a file in it as they are. -/
theorem run_client (hname : PlainName name) {base : Target}
    (hbase : base.path.head? = some SLASH) (isDir : Bool) (root : List Bytes) :
    pathRule.run root
        (segments (removeDotSegments (mergePaths base.path (linkText name isDir)))) =
      root ++ base.directory.filter (· ≠ []) ++ [name] := by
  obtain ⟨hne, hdot, hdots⟩ := (plain_iff name).1 hname.plain
  have hlink : ∀ seg ∈ segments (linkText name isDir), dotRule.Plain seg := by
    intro seg hmem
    rw [segments_linkText hname] at hmem
    rcases List.mem_cons.1 hmem with rfl | hmem
    · exact ⟨by simpa [dotRule] using hdot, by simpa [dotRule] using hdots⟩
    · split_ifs at hmem
      · obtain rfl := List.mem_singleton.1 hmem
        exact ⟨by decide, by decide⟩
      · cases hmem
  have hdirectory : ∀ seg ∈ base.directory, seg ≠ ascii "." ∧ seg ≠ ascii ".." :=
    fun seg hmem => (mem_run_dotRule (P := fun _ => True) (fun _ _ => trivial) seg hmem).2
  rw [segments, splitOn_removeDotSegments hbase hlink, ← segments, segments_linkText hname,
    StackRule.run_filter]
  · have hfilter : base.directory.filter (!pathRule.skip ·) =
        base.directory.filter (· ≠ []) := by
      apply List.filter_congr
      intro seg hmem
      simp [pathRule, (hdirectory seg hmem).1]
    have hkept : pathRule.skip name = false := hname.plain.1
    have hempty : pathRule.skip [] = true := rfl
    cases isDir <;> simp [List.filter_append, hfilter, hkept, hempty]
  · intro seg hmem hup
    have hseg : seg = ascii ".." := by simpa [pathRule] using hup
    rcases List.mem_cons.1 hmem with rfl | hmem
    · rfl
    · rcases List.mem_append.1 hmem with hmem | hmem
      · exact absurd hseg (hdirectory seg hmem).2
      · rw [← segments_linkText hname] at hmem
        have hplain := (hlink seg hmem).2
        simp [dotRule, hseg] at hplain

theorem hrefOf_dirEntry (env : Environment) (dirPath name : Bytes) :
    hrefOf (entryLine env (dirEntry env.fs dirPath name)) =
      some (linkText name (dirEntry env.fs dirPath name).isDir) := by
  have hentry : (dirEntry env.fs dirPath name).name = name := by
    unfold dirEntry
    split
    · rfl
    · rfl
  rw [hrefOf_entryLine, hentry, linkText]

theorem linkLeads_of_plainLink (h : ListedEntry env config request vhost dirPath name)
    (hplain : PlainLink request vhost dirPath name) :
    LinkLeads env request vhost dirPath name := by
  have hname := h.plainName
  have hbase := requestTarget_head request
  have hquestion : QUESTION ∉ (requestTarget request).path :=
    not_mem_parseTarget (by decide) _
  let isDir := (dirEntry env.fs dirPath name).isDir
  have hmark := linkText_noMark hplain.noMark isDir
  obtain ⟨hne, hslash⟩ := linkText_head hname isDir
  have hscheme := cutScheme_of_plainLink hplain.noScheme isDir
  have hparse := parseReference_of_noScheme hmark hslash hscheme
  have hfollow := follow_relative (requestTarget request) hne hslash
  rw [← hparse] at hfollow
  have hnomark := not_mem_follow (by decide) hquestion hfollow
  refine ⟨h.line, linkText name isDir, _, hrefOf_dirEntry env dirPath name, hfollow, ?_⟩
  · rw [splitUri_toBytes hnomark, resolvePath_child_iff hname h.accepted]
    refine ⟨hplain.notRoot, ?_⟩
    rw [run_client hname hbase, hplain.directory]
    rfl

theorem plainLink_of_linkLeads (h : ListedEntry env config request vhost dirPath name)
    (hleads : LinkLeads env request vhost dirPath name) :
    PlainLink request vhost dirPath name := by
  have hname := h.plainName
  have hbase := requestTarget_head request
  obtain ⟨-, href, target, hhref, hfollow, hresolve⟩ := hleads
  rw [hrefOf_dirEntry] at hhref
  obtain rfl := Option.some.inj hhref
  have hnomark : ∀ c ∈ ascii "?#", c ∉ target.path := fun c hc =>
    not_mem_follow hc (not_mem_parseTarget hc _) hfollow
  rw [splitUri_toBytes (hnomark _ (by decide)), resolvePath_child_iff hname h.accepted] at hresolve
  obtain ⟨hroot, hrun⟩ := hresolve
  have hmark : ∀ c ∈ name, c ∉ ascii "?#" := fun c hmem hc =>
    not_mem_of_run (hnomark c hc) (root_le_accepted h.accepted) hrun hmem
  -- with a scheme the reference would lead to another server
  have hnoscheme : COLON ∈ name → name.head? = some COLON := by
    intro hcolon
    by_contra hhead
    rw [follow_of_scheme (cutScheme_isSome hname hmark hcolon hhead _)] at hfollow
    cases hfollow
  refine ⟨hroot, ?_, hmark, hnoscheme⟩
  obtain ⟨hne, hslash⟩ := linkText_head hname (dirEntry env.fs dirPath name).isDir
  rw [parseReference_of_noScheme (linkText_noMark hmark _) hslash
    (cutScheme_of_plainLink hnoscheme _), follow_relative _ hne hslash] at hfollow
  obtain rfl := Option.some.inj hfollow
  rw [run_client hname hbase] at hrun
  exact (List.append_cancel_right hrun).symm

/-! ## Slashes at the end -/

theorem splitUri_eq_takeWhile (uri : Bytes) :
    (splitUri uri).1 = uri.takeWhile (· ≠ QUESTION) := by
  by_cases hmem : QUESTION ∈ uri
  · obtain ⟨front, rest, rfl, hfront⟩ := List.eq_append_cons_of_mem hmem
    have hsplit : (splitUri (Target.toBytes ⟨front, some rest⟩)).1 = front :=
      splitUri_toBytes hfront
    rw [takeWhile_ne_append hfront, List.takeWhile_cons_of_neg (by simp), List.append_nil]
    exact hsplit
  · have hsplit : (splitUri (Target.toBytes ⟨uri, none⟩)).1 = uri := splitUri_toBytes hmem
    rw [Target.toBytes, Option.elim_none, List.append_nil] at hsplit
    rw [takeWhile_ne_eq_self hmem, hsplit]

/-- A client takes the path that the server takes, up to a `#`. -/
theorem requestTarget_path (request : HttpRequest) :
    (requestTarget request).path =
      (if requestPath request = [] then [SLASH] else requestPath request).takeWhile
        (· ≠ byteOf '#') := by
  have htake : ∀ s : Bytes, (parseTarget s).path =
      (s.takeWhile (· ≠ QUESTION)).takeWhile (· ≠ byteOf '#') := by
    intro s
    have hmarks : ascii "?#" = [QUESTION, byteOf '#'] := rfl
    rw [List.takeWhile_takeWhile]
    simp [parseTarget, hmarks, and_comm]
  have hstop : ∀ s : Bytes, (QUESTION :: s).takeWhile (· ≠ QUESTION) = [] :=
    fun s => List.takeWhile_cons_of_neg (by simp)
  have hkeep : ∀ {c : Byte} (s : Bytes), c ≠ QUESTION →
      (c :: s).takeWhile (· ≠ QUESTION) = c :: s.takeWhile (· ≠ QUESTION) :=
    fun s hc => List.takeWhile_cons_of_pos (by simpa using hc)
  have hslash : SLASH ≠ QUESTION := by decide
  rw [requestTarget, htake, requestPath, splitUri_eq_takeWhile]
  congr 1
  unfold originForm
  cases huri : request.uri with
  | nil => rfl
  | cons c rest =>
      by_cases hc : c = SLASH
      · subst hc
        have hhead : (SLASH :: rest).head? = some SLASH := rfl
        rw [if_pos hhead, hkeep rest hslash]
        simp
      · rw [if_neg (by simpa using hc), hkeep _ hslash]
        by_cases hquestion : c = QUESTION
        · subst hquestion
          rw [hstop]
          simp
        · rw [hkeep rest hquestion]
          simp [hc]

theorem requestTarget_path_of_plain (hhash : byteOf '#' ∉ requestPath request) :
    (requestTarget request).path =
      if requestPath request = [] then [SLASH] else requestPath request := by
  rw [requestTarget_path]
  apply takeWhile_ne_eq_self
  split_ifs
  · decide
  · exact hhash

theorem ListedEntry.normalSegments (h : ListedEntry env config request vhost dirPath name)
    (hdots : ∀ seg ∈ segments (requestPath request), seg ≠ ascii "." ∧ seg ≠ ascii "..") :
    CppHttpd.normalSegments dirPath = CppHttpd.normalSegments vhost.documentRoot ++
      (segments (requestPath request)).filter (· ≠ []) := by
  rw [normalSegments_accepted h.accepted, StackRule.run_filter]
  · congr 1
    apply List.filter_congr
    intro seg hmem
    simp [pathRule, (hdots seg hmem).1]
  · intro seg hmem hup
    exact absurd (by simpa [pathRule] using hup) (hdots seg hmem).2

/-- Where nothing is removed from its path, a client is in the directory behind a slash only. -/
theorem directory_iff_of_plain (h : ListedEntry env config request vhost dirPath name)
    (hhash : byteOf '#' ∉ requestPath request)
    (hdots : ∀ seg ∈ segments (requestPath request), seg ≠ ascii "." ∧ seg ≠ ascii "..") :
    normalSegments dirPath = normalSegments vhost.documentRoot ++ clientDirectory request ↔
      requestPath request = [] ∨ (requestPath request).getLast? = some SLASH := by
  have hpath := requestTarget_path_of_plain hhash
  rw [h.normalSegments hdots, List.append_right_inj, clientDirectory]
  by_cases hempty : requestPath request = []
  · rw [if_pos hempty] at hpath
    rw [Target.directory, hpath, hempty]
    exact iff_of_true (by decide) (.inl rfl)
  · rw [if_neg hempty] at hpath
    have hhead : (requestPath request).head? = some SLASH := hpath ▸ requestTarget_head request
    obtain ⟨front, last, hlast, hslash⟩ := exists_last_slash (List.mem_of_mem_head? hhead)
    have hsplit : segments (requestPath request) =
        segments front ++ [last] := by
      rw [hlast, segments_append_slash]
      exact congrArg _ (List.splitOn_eq_singleton hslash)
    have hplain : ∀ seg ∈ segments front, dotRule.Plain seg := by
      intro seg hmem
      obtain ⟨hdot, hdotdot⟩ := hdots seg (by simp [hsplit, hmem])
      exact ⟨by simpa [dotRule] using hdot, by simpa [dotRule] using hdotdot⟩
    -- the path begins with a slash, and so with an empty segment
    obtain ⟨segs, hsegs⟩ : ∃ segs, segments front = [] :: segs := by
      cases front with
      | nil => exact ⟨[], rfl⟩
      | cons c front =>
          have hc : c = SLASH := by simpa [hlast] using hhead
          exact ⟨segments front, by rw [hc, segments_slash]⟩
    rw [directory_of_plain (hpath.trans hlast) hslash hplain, ← segments, hsplit, hsegs,
      hlast]
    cases last with
    | nil => simp
    | cons c last =>
        have hend : (c :: last).getLast? ≠ some SLASH := fun heq =>
          hslash (List.mem_of_getLast? heq)
        simpa [List.filter_append] using hend

/-! ## Links that lead to their entries -/

/--
The link of an entry leads to the entry exactly if the directory is not the root of
the file system and is the one in which the client looks for the name, and the
client does not read a query, a fragment or a scheme in the name.
-/
theorem linkLeads_iff (env : Environment) (config : Config) (request : HttpRequest)
    (vhost : VirtualHost) (dirPath name : Bytes)
    (h : ListedEntry env config request vhost dirPath name) :
    LinkLeads env request vhost dirPath name ↔ PlainLink request vhost dirPath name :=
  ⟨plainLink_of_linkLeads h, linkLeads_of_plainLink h⟩

end

/-- A directory with one file in it. -/
def docsFiles : FileSystem where
  root := 0
  workingDirectory := 0
  stat i :=
    { ino := i
      kind := if i = 2 then .regular else .directory
      executable := false
      size := 0
      mtime := 0 }
  entry i name :=
    if i = 0 ∧ name = ascii "docs" then some 1
    else if i = 1 ∧ name = ascii "a.txt" then some 2 else none
  parent _ := 0
  links _ _ := 0
  readable _ := true
  content _ := []
  names i := if i = 1 then [ascii ".", ascii "..", ascii "a.txt"] else []
  parent_directory _ := rfl

def docsEnvironment : Environment := .still docsFiles fun _ => .forkFailed

def docsHost : VirtualHost := { documentRoot := ascii "/", serverName := ascii "localhost" }

theorem listedEntry_docs (uri : Bytes)
    (hroute : route docsEnvironment { virtualHosts := [docsHost] } { uri := uri } =
      .directory docsHost (ascii "/docs")) :
    ListedEntry docsEnvironment { virtualHosts := [docsHost] } { uri := uri } docsHost
      (ascii "/docs") (ascii "a.txt") where
  route := hroute
  listed := by rfl
  entry := ⟨1, by decide, by decide, by decide, by decide⟩
  notDot := by decide
  fileName := by decide

theorem linkLeads_iff_slash :
    LinkLeads docsEnvironment { uri := ascii "/docs/" } docsHost (ascii "/docs")
      (ascii "a.txt") :=
  (linkLeads_iff docsEnvironment { virtualHosts := [docsHost] } { uri := ascii "/docs/" }
    docsHost (ascii "/docs") (ascii "a.txt") (listedEntry_docs _ rfl)).2
    { notRoot := by decide
      directory := by decide
      noMark := forall_mem_of_all (by decide)
      noScheme := fun hcolon => absurd hcolon (by decide) }

/-- Without a slash at the end of the URI the link leads to `/a.txt`. -/
theorem not_linkLeads :
    ¬ ∀ env config request vhost dirPath name,
      ListedEntry env config request vhost dirPath name →
        LinkLeads env request vhost dirPath name := by
  intro hall
  have hlisted := listedEntry_docs (ascii "/docs") rfl
  have hplain := plainLink_of_linkLeads hlisted (hall _ _ _ _ _ _ hlisted)
  exact absurd hplain.directory (by decide)

end CppHttpd
