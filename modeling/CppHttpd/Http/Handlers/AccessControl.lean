import CppHttpd.Http.Handlers.Route
import CppHttpd.Http.Routing.ResolvedPath

/-!
# Access control

The object that is served, the directory that is checked and the access file
that is opened are three readings of one path.  They agree unless the path has a
NUL byte, where the kernel stops reading and the server does not.
-/

namespace CppHttpd

open CppHttpd.Foundation

/-- The directory whose access file is to guard an object. -/
def guardDirectory (fs : FileSystem) (path : Bytes) (i : Inode) : Option Inode :=
  if fs.isDirectory i then some i else fs.reachHolder path

/-- What `.htaccess` leads to in a directory. -/
def FileSystem.accessEntry (fs : FileSystem) (g : Inode) : Option Inode :=
  if fs.links g (ascii ".htaccess") ≤ MAXSYMLINKS then fs.entry g (ascii ".htaccess") else none

/-- The `.htaccess` in a directory, if `parse_htaccess` accepts it. -/
def accessFile (fs : FileSystem) (g : Inode) : Option HtaccessAuth :=
  ((fs.accessEntry g).bind fs.readInode).bind parseHtaccess

def resolvedPath (request : HttpRequest) (vhost : VirtualHost) : Bytes :=
  (resolvePath vhost (requestPath request)).1

/-- Whoever gets at a guarded object has passed the comparison with its access file. -/
def AuthEnforced (env : Environment) (config : Config) (request : HttpRequest)
    (vhost : VirtualHost) (acceptingNewConnections : Bool) (clientRemoteAddr : Option Bytes)
    (s : OsState) : Prop :=
  ∀ i g htaccess, env.fs.reach (resolvedPath request vhost) = some i →
    guardDirectory env.fs (resolvedPath request vhost) i = some g →
    accessFile env.fs g = some htaccess →
    (handle env config request acceptingNewConnections clientRemoteAddr s).2.accesses ≠
      s.accesses →
    checkCredentials htaccess request = .ok

/-- The path that is opened for the access file `h` of an object leads to it, or is not asked. -/
def Asked (fs : FileSystem) (request : HttpRequest) (path : Bytes) (i h : Inode) : Prop :=
  match (fs.stat i).kind with
  | .directory => request.method = .POST ∨ NUL ∉ path ∧ fs.Within (htaccessPath path)
  | .regular =>
      if SLASH ∈ path.dropWhile (· ≠ NUL) then h = i
      else fs.Within (htaccessPath (dirOfResource path (fs.stat i)))
  | .other => True

/-- Requests that access control cannot be led astray with, as the directories and links are. -/
def Guarded (fs : FileSystem) (request : HttpRequest) (vhost : VirtualHost) : Prop :=
  request.method = .OPTIONS ∨
    (request.methodStr = ascii "GET" ∧ requestPath request = ascii "/load") ∨
    ∀ i g h, fs.reach (resolvedPath request vhost) = some i →
      guardDirectory fs (resolvedPath request vhost) i = some g → fs.accessEntry g = some h →
      fs.isDirectory h = false → Asked fs request (resolvedPath request vhost) i h

theorem guarded_of_clean {fs : FileSystem} {request : HttpRequest} {vhost : VirtualHost}
    (hnul : NUL ∉ resolvedPath request vhost)
    (hwithin : ∀ i, fs.reach (resolvedPath request vhost) = some i →
      fs.Within (htaccessPath (dirOfResource (resolvedPath request vhost) (fs.stat i)))) :
    Guarded fs request vhost := by
  refine .inr (.inr fun i g h hreach _ _ _ => ?_)
  have hslash : SLASH ∉ (resolvedPath request vhost).dropWhile (· ≠ NUL) := by
    have hall : ∀ c ∈ resolvedPath request vhost, decide (c ≠ NUL) = true := fun c hc => by
      rw [decide_eq_true_eq]
      rintro rfl
      exact hnul hc
    rw [List.dropWhile_eq_nil_iff.2 hall]
    exact List.not_mem_nil
  have hchecked := hwithin i hreach
  unfold Asked
  cases hkind : (fs.stat i).kind with
  | other => trivial
  | directory =>
      rw [dirOfResource, if_pos hkind] at hchecked
      exact .inr ⟨hnul, hchecked⟩
  | regular =>
      dsimp only
      rw [if_neg hslash]
      exact hchecked

/-! ## Getting at an object -/

def Route.opens : Route → Bool
  | .cgi _ _ => true
  | .file _ => true
  | .directory _ _ => true
  | _ => false

theorem answer_of_not_opens {env : Environment} {config : Config} {request : HttpRequest}
    {acceptingNewConnections : Bool} {clientRemoteAddr : Option Bytes} {r : Route}
    (h : r.opens = false) (s : OsState) :
    (answer env config request acceptingNewConnections clientRemoteAddr r s).2 = s := by
  cases r with
  | cgi vhost path => cases h
  | file path => cases h
  | directory vhost path => cases h
  | _ => rfl

theorem contentRoute_opens {request : HttpRequest} {vhost : VirtualHost} {path : Bytes}
    {st : Stat} (h : (contentRoute request vhost path st).opens = true) :
    request.method ≠ .OPTIONS ∧
      (st.kind = .regular ∨ st.kind = .directory ∧ request.method ≠ .POST) := by
  unfold contentRoute at h
  split_ifs at h with hoptions hcgi hpost
  · cases h
  · exact ⟨hoptions, .inl hcgi.1⟩
  · cases h
  · cases hkind : st.kind with
    | regular => exact ⟨hoptions, .inl rfl⟩
    | directory => exact ⟨hoptions, .inr ⟨rfl, hpost⟩⟩
    | other => simp [hkind, Route.opens] at h

structure Admitted (env : Environment) (request : HttpRequest) (vhost : VirtualHost)
    (st : Stat) : Prop where
  stat : env.fs.statPath (resolvedPath request vhost) = some st
  auth : checkHtaccessAndAuth env.fs (dirOfResource (resolvedPath request vhost) st) request = .ok
  under : (resolvePath vhost (requestPath request)).2 = true
  load : ¬ (request.methodStr = ascii "GET" ∧ requestPath request = ascii "/load")
  method : request.method ≠ .OPTIONS
  kind : st.kind = .regular ∨ st.kind = .directory ∧ request.method ≠ .POST

theorem admitted_of_access {env : Environment} {config : Config} {request : HttpRequest}
    {vhost : VirtualHost} {acceptingNewConnections : Bool} {clientRemoteAddr : Option Bytes}
    {s : OsState} (hvhost : resolveVhost config.virtualHosts request = some vhost)
    (haccess : (handle env config request acceptingNewConnections clientRemoteAddr s).2.accesses ≠
      s.accesses) : ∃ st, Admitted env request vhost st := by
  rw [handle_eq] at haccess
  have hopens : (accessRoute env request vhost).opens = true := by
    by_contra hclosed
    have hroute : route env config request = accessRoute env request vhost := by
      rw [route, hvhost]
    rw [hroute, answer_of_not_opens (by simpa using hclosed)] at haccess
    exact haccess rfl
  unfold accessRoute at hopens
  split_ifs at hopens with hload hunder
  · cases hopens
  · cases hopens
  · simp only [Bool.not_eq_false] at hunder
    dsimp only at hopens
    cases hstat : env.fs.statPath (resolvePath vhost (requestPath request)).1 with
    | none => simp [hstat, Route.opens] at hopens
    | some st =>
        cases hauth : checkHtaccessAndAuth env.fs
            (dirOfResource (resolvePath vhost (requestPath request)).1 st) request with
        | ok =>
            simp only [hstat, hauth] at hopens
            obtain ⟨hmethod, hkind⟩ := contentRoute_opens hopens
            exact ⟨st, hstat, hauth, hunder, hload, hmethod, hkind⟩
        | missingAuth => simp [hstat, hauth, Route.opens] at hopens
        | invalidAuth => simp [hstat, hauth, Route.opens] at hopens

/-! ## What is checked -/

theorem resolvedPath_eq {request : HttpRequest} {vhost : VirtualHost}
    (habs : vhost.documentRoot.head? = some SLASH)
    (hunder : (resolvePath vhost (requestPath request)).2 = true) :
    ∃ segs, Normal segs ∧ resolvedPath request vhost = absolutePath segs := by
  have hcanonical := normalizePath_absolute (combinePath_head habs (requestPath request))
  unfold resolvePath at hunder
  dsimp only at hunder
  split_ifs at hunder with hroot
  refine ⟨_, normalSegments_normal (combinePath vhost.documentRoot (requestPath request)), ?_⟩
  rw [← hcanonical, resolvedPath, resolvePath]
  simp only [hroot, if_true]

theorem htaccess_plain : pathRule.Plain (ascii ".htaccess") := (plain_iff _).2 (by decide)

theorem normal_htaccess : Normal [ascii ".htaccess"] := by
  intro segment hmem
  rw [List.mem_singleton.1 hmem]
  exact ⟨by decide, htaccess_plain⟩

theorem htaccessPath_lead {segs : List Bytes} (hsegs : Normal segs) :
    htaccessPath (lead SLASH segs) = lead SLASH (segs ++ [ascii ".htaccess"]) := by
  have htrim : trimTrailingSlash (lead SLASH segs) = lead SLASH segs := by
    unfold trimTrailingSlash
    rw [if_neg (lead_getLast hsegs)]
    split_ifs <;> rfl
  rw [htaccessPath, htrim, lead_append]
  rfl

theorem dirOfResource_lead {init : List Bytes} {last : Bytes} (hlast : SLASH ∉ last) {st : Stat}
    (hkind : st.kind ≠ .directory) :
    dirOfResource (lead SLASH (init ++ [last])) st = lead SLASH init := by
  have hpath : lead SLASH (init ++ [last]) = lead SLASH init ++ SLASH :: last := by
    simp [lead]
  unfold dirOfResource
  rw [if_neg hkind, hpath, rfind_append_cons hlast]
  simp

namespace FileSystem

variable (fs : FileSystem)

theorem isDirectory_of_lookup {i j : Inode} {name : Bytes} (h : fs.lookup i name = some j) :
    fs.isDirectory i = true := by
  unfold lookup at h
  split_ifs at h <;> assumption

theorem walk_concat (i : Inode) (names : List Bytes) (name : Bytes) :
    fs.walk i (names ++ [name]) = (fs.walk i names).bind fun i' => fs.lookup i' name := by
  rw [walk_append]
  simp only [walk_singleton]

theorem lookup_plain {name : Bytes} (hname : pathRule.Plain name) (i : Inode) :
    fs.lookup i name = if fs.isDirectory i then fs.entry i name else none := by
  obtain ⟨hne, hdot, hdots⟩ := (plain_iff name).1 hname
  simp [lookup, hne, hdot, hdots]

theorem isDirectory_of_dots {i j : Inode} {name : Bytes}
    (hname : name ∈ [[], ascii ".", ascii ".."]) (h : fs.lookup i name = some j) :
    fs.isDirectory j = true := by
  unfold lookup at h
  split_ifs at h with hdir hstay hup
  · cases h
    exact hdir
  · cases h
    simp [isDirectory, fs.parent_directory]
  · simp_all

end FileSystem

section

variable {fs : FileSystem} {segs pre post : List Bytes} {seg : Bytes} {i : Inode} {st : Stat}

theorem target_htaccess {names : List Bytes} (hnames : Normal names)
    (hclean : ∀ name ∈ names, NUL ∉ name) :
    fs.target (lead SLASH (names ++ [ascii ".htaccess"])) =
      (fs.walk fs.root ([] :: names)).bind fun g => fs.lookup g (ascii ".htaccess") := by
  have hcut : Cut (names ++ [ascii ".htaccess"]) names (ascii ".htaccess") [] :=
    ⟨rfl, hclean, .inr rfl⟩
  have hchecked : Normal (names ++ [ascii ".htaccess"]) := hnames.append normal_htaccess
  rw [hcut.target_lead fs hchecked.slash_not_mem, cString_of_not_mem (by decide), ← List.cons_append,
    fs.walk_concat]

/-- Without a NUL, the access file of a directory is the one that is opened. -/
theorem target_htaccess_directory (hsegs : Normal segs) (hnul : NUL ∉ absolutePath segs)
    (hreach : fs.target (absolutePath segs) = some i) (hdir : fs.isDirectory i = true) :
    fs.target (htaccessPath (absolutePath segs)) = fs.entry i (ascii ".htaccess") := by
  have hentry : fs.lookup i (ascii ".htaccess") = fs.entry i (ascii ".htaccess") := by
    rw [fs.lookup_plain htaccess_plain, if_pos hdir]
  by_cases hne : segs = []
  · subst hne
    have hcut : Cut [[]] [] [] [] := ⟨rfl, by simp, .inr rfl⟩
    have hroot := hcut.target_lead fs (by simp)
    have hpath : htaccessPath (absolutePath []) = lead SLASH ([] ++ [ascii ".htaccess"]) := by
      decide
    change fs.target (lead SLASH [[]]) = some i at hreach
    rw [hroot, ← List.cons_append, fs.walk_concat] at hreach
    obtain ⟨j, hj, hij⟩ := Option.bind_eq_some_iff.1 hreach
    have heq : j = i := by
      simpa [FileSystem.lookup, cString, fs.isDirectory_of_lookup hij] using hij
    rw [hpath, target_htaccess (by simp [Normal]) (by simp), hj, Option.bind_some, heq, hentry]
  · rw [absolutePath_eq_lead hne] at hnul hreach ⊢
    obtain ⟨pre, seg, post, hcut⟩ := exists_cut hne
    rw [hcut.mem_iff] at hnul
    obtain rfl : post = [] := hcut.reason.resolve_left hnul
    have hclean : ∀ segment ∈ segs, NUL ∉ segment := by
      rw [hcut.eq]
      intro segment hmem
      rcases List.mem_append.1 hmem with hmem | hmem
      · exact hcut.pre_clean segment hmem
      · rwa [List.mem_singleton.1 hmem]
    rw [hcut.target_lead fs hsegs.slash_not_mem, cString_of_not_mem hnul,
      ← hcut.eq] at hreach
    rw [htaccessPath_lead hsegs, target_htaccess hsegs hclean, hreach, Option.bind_some, hentry]

/-- A file whose name holds the first NUL, if there is one, is checked in its directory. -/
theorem target_htaccess_file (hsegs : Normal segs) (hcut : Cut segs pre seg [])
    (hreach : fs.target (lead SLASH segs) = some i) (hkind : st.kind ≠ .directory) :
    ∃ g, fs.reachHolder (lead SLASH segs) = some g ∧
      fs.target (htaccessPath (dirOfResource (lead SLASH segs) st)) =
        fs.entry g (ascii ".htaccess") := by
  have hslash := hsegs.slash_not_mem
  have hpre := hcut.pre_normal hsegs
  have hseg : SLASH ∉ seg := hslash seg (by simp [hcut.eq])
  rw [hcut.target_lead fs hslash, ← List.cons_append, fs.walk_concat] at hreach
  obtain ⟨g, hg, hi⟩ := Option.bind_eq_some_iff.1 hreach
  refine ⟨g, (hcut.reachHolder_lead fs hslash).trans hg, ?_⟩
  rw [hcut.eq, dirOfResource_lead hseg hkind, htaccessPath_lead hpre,
    target_htaccess hpre hcut.pre_clean, hg, Option.bind_some, fs.lookup_plain htaccess_plain,
    if_pos (fs.isDirectory_of_lookup hi)]

/-- With a slash behind the first NUL, the file itself is opened as its access file. -/
theorem cString_htaccess_self (hsegs : Normal segs) (hcut : Cut segs pre seg post)
    (hpost : post ≠ []) (hkind : st.kind ≠ .directory) :
    cString (htaccessPath (dirOfResource (lead SLASH segs) st)) = cString (lead SLASH segs) := by
  have hslash := hsegs.slash_not_mem
  obtain ⟨init, last, rfl⟩ := (List.eq_nil_or_concat post).resolve_left hpost
  rw [List.concat_eq_append] at hcut
  have hinit : Normal (pre ++ seg :: init) := fun segment hmem => hsegs segment (by
    rw [hcut.eq]
    simp only [List.mem_append, List.mem_cons] at hmem ⊢
    tauto)
  have hlast : SLASH ∉ last := hslash last (by simp [hcut.eq])
  have hcut' : Cut (pre ++ seg :: init ++ [ascii ".htaccess"]) pre seg
      (init ++ [ascii ".htaccess"]) :=
    ⟨by simp, hcut.pre_clean, .inl (hcut.reason.resolve_right (by simp))⟩
  have hsplit : segs = (pre ++ seg :: init) ++ [last] := by simp [hcut.eq]
  have hdir : dirOfResource (lead SLASH segs) st = lead SLASH (pre ++ seg :: init) := by
    rw [hsplit, dirOfResource_lead hlast hkind]
  rw [hdir, htaccessPath_lead hinit, hcut'.cString_lead, hcut.cString_lead]

theorem slash_mem_dropWhile_iff (hsegs : Normal segs) (hcut : Cut segs pre seg post) :
    SLASH ∈ (lead SLASH segs).dropWhile (· ≠ NUL) ↔ post ≠ [] := by
  have hpre : ∀ c ∈ lead SLASH pre ++ [SLASH], decide (c ≠ NUL) = true := by
    intro c hc
    simp only [ne_eq, decide_eq_true_eq]
    rintro rfl
    rcases List.mem_append.1 hc with hc | hc
    · exact not_mem_lead (by decide) hcut.pre_clean hc
    · exact absurd hc (by decide)
  have hslash : SLASH ∉ seg.dropWhile (· ≠ NUL) := fun hmem =>
    hsegs.slash_not_mem seg (by simp [hcut.eq]) ((List.dropWhile_sublist _).subset hmem)
  have hpath : lead SLASH segs = (lead SLASH pre ++ [SLASH]) ++ (seg ++ lead SLASH post) := by
    rw [hcut.eq]
    simp [lead]
  rw [hpath, List.dropWhile_append_of_pos hpre]
  rcases hcut.reason with hnul | rfl
  · have hseg : seg.dropWhile (· ≠ NUL) ≠ [] := by
      simpa using hnul
    rw [List.dropWhile_append, if_neg (by simpa using hseg), List.mem_append, or_iff_right hslash]
    cases post with
    | nil => simp [lead]
    | cons next post => simp [lead]
  · rw [lead, List.flatMap_nil, List.append_nil]
    exact iff_of_false hslash (by simp)

theorem isDirectory_root (hreach : fs.target (absolutePath []) = some i) :
    fs.isDirectory i = true := by
  have hcut : Cut [[]] [] [] [] := ⟨rfl, by simp, .inr rfl⟩
  change fs.target (lead SLASH [[]]) = some i at hreach
  rw [hcut.target_lead fs (by simp), ← List.cons_append, fs.walk_concat] at hreach
  obtain ⟨j, -, hij⟩ := Option.bind_eq_some_iff.1 hreach
  exact fs.isDirectory_of_dots (by decide) hij

theorem entry_of_accessEntry {g h : Inode} (hentry : fs.accessEntry g = some h) :
    fs.entry g (ascii ".htaccess") = some h := by
  unfold FileSystem.accessEntry at hentry
  split_ifs at hentry
  exact hentry

/-- The file is checked against its own content, or in its directory. -/
theorem reach_checked_file (hsegs : Normal segs) (hreach : fs.reach (absolutePath segs) = some i)
    (hdir : fs.isDirectory i = false) (hkind : st.kind ≠ .directory) {g : Inode}
    (hguard : guardDirectory fs (absolutePath segs) i = some g) :
    if SLASH ∈ (absolutePath segs).dropWhile (· ≠ NUL) then
      fs.reach (htaccessPath (dirOfResource (absolutePath segs) st)) = some i
    else fs.target (htaccessPath (dirOfResource (absolutePath segs) st)) =
      fs.entry g (ascii ".htaccess") := by
  have hholder : fs.reachHolder (absolutePath segs) = some g := by
    simpa [guardDirectory, hdir] using hguard
  have hne : segs ≠ [] := by
    rintro rfl
    rw [isDirectory_root (FileSystem.target_of_reach hreach)] at hdir
    cases hdir
  obtain ⟨pre, seg, post, hcut⟩ := exists_cut hne
  rw [absolutePath_eq_lead hne] at hreach hholder ⊢
  have hslash := slash_mem_dropWhile_iff hsegs hcut
  by_cases hpost : post = []
  · subst hpost
    obtain ⟨g', hg', hentry⟩ :=
      target_htaccess_file hsegs hcut (FileSystem.target_of_reach hreach) hkind
    rw [hholder] at hg'
    cases hg'
    rw [if_neg fun hmem => hslash.1 hmem rfl, hentry]
  · rw [if_pos (hslash.2 hpost), fs.reach_congr (cString_htaccess_self hsegs hcut hpost hkind), hreach]

/-- Where the readings of the path agree, the access file of the guard is what is read. -/
theorem readFile_checked {g h : Inode} {request : HttpRequest} (hsegs : Normal segs)
    (hreach : fs.reach (absolutePath segs) = some i)
    (hguard : guardDirectory fs (absolutePath segs) i = some g)
    (hentry : fs.accessEntry g = some h) (hasked : Asked fs request (absolutePath segs) i h)
    (hkind : (fs.stat i).kind = .regular ∨
      (fs.stat i).kind = .directory ∧ request.method ≠ .POST) :
    fs.readFile (htaccessPath (dirOfResource (absolutePath segs) (fs.stat i))) =
      fs.readInode h := by
  have htarget : fs.reach (htaccessPath (dirOfResource (absolutePath segs) (fs.stat i))) =
      some h := by
    unfold Asked at hasked
    rcases hkind with hregular | ⟨hdirectory, hpost⟩
    · have hdir : fs.isDirectory i = false := by simp [FileSystem.isDirectory, hregular]
      have hnot : (fs.stat i).kind ≠ .directory := by simp [hregular]
      have hfile := reach_checked_file hsegs hreach hdir hnot hguard
      simp only [hregular] at hasked
      split_ifs at hasked hfile with hslash
      · rw [hfile, hasked]
      · rw [fs.reach_of_within hasked, hfile, entry_of_accessEntry hentry]
    · have hdir : fs.isDirectory i = true := by simp [FileSystem.isDirectory, hdirectory]
      have hpath : dirOfResource (absolutePath segs) (fs.stat i) = absolutePath segs :=
        if_pos hdirectory
      simp only [hdirectory] at hasked
      obtain ⟨hnul, hwithin⟩ := hasked.resolve_left hpost
      obtain rfl : i = g := by simpa [guardDirectory, hdir] using hguard
      rw [hpath, fs.reach_of_within hwithin, target_htaccess_directory hsegs hnul
        (FileSystem.target_of_reach hreach) hdir, entry_of_accessEntry hentry]
  rw [FileSystem.readFile, htarget, Option.bind_some]

end

theorem not_isDirectory_of_accessFile {fs : FileSystem} {g h : Inode} {htaccess : HtaccessAuth}
    (hentry : fs.accessEntry g = some h) (hfile : accessFile fs g = some htaccess) :
    fs.isDirectory h = false := by
  have hempty : parseHtaccess [] = none := by decide
  rw [accessFile, hentry, Option.bind_some, FileSystem.readInode] at hfile
  by_contra hdir
  rw [Bool.not_eq_false, FileSystem.isDirectory, decide_eq_true_eq] at hdir
  split_ifs at hfile
  · simp [hempty] at hfile
  · cases hfile

theorem authEnforced_of_guarded {env : Environment} {config : Config} {request : HttpRequest}
    {vhost : VirtualHost} (hvhost : resolveVhost config.virtualHosts request = some vhost)
    (habs : vhost.documentRoot.head? = some SLASH) (hguarded : Guarded env.fs request vhost)
    (acceptingNewConnections : Bool) (clientRemoteAddr : Option Bytes) (s : OsState) :
    AuthEnforced env config request vhost acceptingNewConnections clientRemoteAddr s := by
  intro i g htaccess hreach hguard hfile haccess
  obtain ⟨st, hadmitted⟩ := admitted_of_access hvhost haccess
  obtain ⟨segs, hsegs, hpath⟩ := resolvedPath_eq habs hadmitted.under
  have hst : env.fs.stat i = st := by
    have hstat := hadmitted.stat
    rw [FileSystem.statPath, hreach] at hstat
    exact Option.some.inj hstat
  obtain ⟨h, hentry⟩ : ∃ h, env.fs.accessEntry g = some h := by
    rw [← Option.isSome_iff_exists]
    by_contra hnone
    rw [Option.not_isSome_iff_eq_none] at hnone
    rw [accessFile, hnone] at hfile
    cases hfile
  have hasked : Asked env.fs request (resolvedPath request vhost) i h :=
    (hguarded.resolve_left hadmitted.method).resolve_left hadmitted.load i g h hreach hguard hentry
      (not_isDirectory_of_accessFile hentry hfile)
  have hread : env.fs.readFile (htaccessPath (dirOfResource (resolvedPath request vhost) st)) =
      env.fs.readInode h := by
    rw [hpath] at hreach hguard hasked ⊢
    rw [← hst]
    exact readFile_checked hsegs hreach hguard hentry hasked (hst ▸ hadmitted.kind)
  have hauth := hadmitted.auth
  rw [accessFile, hentry, Option.bind_some] at hfile
  rw [checkHtaccessAndAuth, hread, hfile] at hauth
  exact hauth

end CppHttpd
