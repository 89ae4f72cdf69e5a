import CppHttpd.Http.Handlers.AccessBypass
import CppHttpd.Http.Handlers.Containment
import CppHttpd.Http.Routing.AcceptedPath

/-!
# What a request gets at

A request can have a file opened, a directory listed or a program run.  Whatever
it is, it lies below the document root of the host that was asked, and the access
file of its directory lets the request pass, if only no NUL byte cuts the path and
the kernel takes the path of the access file.
-/

namespace CppHttpd

open CppHttpd.Foundation

def Access.inode : Access → Inode
  | .served i => i
  | .listed i => i
  | .executed i => i

/-- The names of the directory with the access file for an object that the names lead to. -/
def Access.directory (names : List Bytes) : Access → List Bytes
  | .served _ => names.dropLast
  | .listed _ => names
  | .executed _ => names.dropLast

/-- An object below the document root, and a request that may have it. -/
structure Exposed (fs : FileSystem) (vhost : VirtualHost) (request : HttpRequest)
    (access : Access) : Prop where
  intro ::
  exists_names : ∃ names g, Normal names ∧
    fs.walk fs.root (normalSegments vhost.documentRoot ++ names) = some access.inode ∧
    fs.walk fs.root (access.directory (normalSegments vhost.documentRoot ++ names)) = some g ∧
    (fs.Within (htaccessPath
        (absolutePath (access.directory (normalSegments vhost.documentRoot ++ names)))) →
      ∀ htaccess, accessFile fs g = some htaccess → checkCredentials htaccess request = .ok)

/-! ## Where an accepted path is -/

section

variable {vhost : VirtualHost} {request : HttpRequest} {names : List Bytes}

theorem not_mem_requestPath {c : Byte} (hc : c ≠ SLASH) (huri : c ∉ request.uri) :
    c ∉ requestPath request := by
  have hpath : c ∉ (splitUri request.uri).1 := by
    unfold splitUri
    split
    · exact huri
    · exact fun hmem => huri (List.mem_of_mem_take hmem)
  unfold requestPath
  dsimp only
  split_ifs
  · rw [List.mem_cons, not_or]
    exact ⟨hc, hpath⟩
  · exact hpath

/-- The path of a request that is let below the root. -/
theorem resolvedPath_below (habs : vhost.documentRoot.head? = some SLASH)
    (hunder : (resolvePath vhost (requestPath request)).2 = true) :
    ∃ names, Normal (normalSegments vhost.documentRoot ++ names) ∧
      resolvedPath request vhost = absolutePath (normalSegments vhost.documentRoot ++ names) ∧
      pathRule.run [] (segments vhost.documentRoot ++ segments (requestPath request)) =
        normalSegments vhost.documentRoot ++ names := by
  have hresolved : resolvePath vhost (requestPath request) =
      (resolvedPath request vhost, true) := Prod.ext rfl hunder
  obtain ⟨hpath, hbelow⟩ := resolvePath_accepted hresolved
  have hnormal := normalSegments_normal (combinePath vhost.documentRoot (requestPath request))
  rw [normalizePath_absolute (combinePath_head habs _)] at hpath
  rw [hpath, pathUnderRoot_iff habs hnormal] at hbelow
  obtain ⟨names, hnames⟩ := hbelow
  rw [← normalSegments_combinePath]
  exact ⟨names, hnames ▸ hnormal, hnames ▸ hpath, hnames.symm⟩

/-- A byte that is in no name of the path. -/
theorem not_mem_resolved {c : Byte} (hroot : c ∉ vhost.documentRoot) (huri : c ∉ request.uri)
    (hc : c ≠ SLASH) {segs : List Bytes}
    (hrun : pathRule.run [] (segments vhost.documentRoot ++ segments (requestPath request)) =
      segs) : ∀ segment ∈ segs, c ∉ segment := by
  rw [← hrun]
  refine fun segment hmem => (StackRule.mem_run (R := pathRule) (P := (c ∉ ·)) (by simp)
    (fun seg hseg => ?_) segment hmem).1
  rcases List.mem_append.1 hseg with hseg | hseg
  · exact fun hmem => hroot (mem_of_mem_splitOn SLASH hseg hmem)
  · exact fun hmem => not_mem_requestPath hc huri (mem_of_mem_splitOn SLASH hseg hmem)

theorem not_mem_absolutePath {c : Byte} (hc : c ≠ SLASH) {segs : List Bytes}
    (hsegs : ∀ segment ∈ segs, c ∉ segment) : c ∉ absolutePath segs := by
  by_cases hne : segs = []
  · subst hne
    simpa [absolutePath] using hc
  · rw [absolutePath_eq_lead hne]
    exact not_mem_lead hc hsegs

end

section

variable {fs : FileSystem} {segs : List Bytes} {i : Inode}

theorem FileSystem.walk_of_empty {j : Inode} {names : List Bytes}
    (h : fs.walk i ([] :: names) = some j) : fs.walk i names = some j := by
  rw [walk] at h
  obtain ⟨i', hi', hwalk⟩ := Option.bind_eq_some_iff.1 h
  simp only [lookup, true_or, if_true] at hi'
  split_ifs at hi'
  cases hi'
  exact hwalk

/-- The kernel takes the names of a path one by one. -/
theorem reach_absolutePath (hsegs : Normal segs) (hclean : ∀ segment ∈ segs, NUL ∉ segment)
    (hreach : fs.reach (absolutePath segs) = some i) : fs.walk fs.root segs = some i := by
  rcases segs.eq_nil_or_concat with rfl | ⟨init, last, rfl⟩
  · have hcut : Cut [[]] [] [] [] := ⟨rfl, by simp, .inr rfl⟩
    have htarget := FileSystem.target_of_reach hreach
    change fs.target (lead SLASH [[]]) = some i at htarget
    rw [hcut.target_lead fs (by simp)] at htarget
    exact fs.walk_of_empty (fs.walk_of_empty htarget)
  · rw [List.concat_eq_append] at *
    have hcut : Cut (init ++ [last]) init last [] :=
      ⟨rfl, fun segment hmem => hclean segment (List.mem_append_left _ hmem), .inr rfl⟩
    have htarget := FileSystem.target_of_reach hreach
    rw [absolutePath_eq_lead (by simp), hcut.target_lead fs hsegs.slash_not_mem,
      cString_of_not_mem (hclean last (by simp))] at htarget
    exact fs.walk_of_empty htarget

/-- A file is taken from a directory, the last one on the way. -/
theorem exists_holder (hsegs : Normal segs) (hclean : ∀ segment ∈ segs, NUL ∉ segment)
    (hreach : fs.reach (absolutePath segs) = some i) (hfile : fs.isDirectory i = false) :
    ∃ g, fs.reachHolder (absolutePath segs) = some g ∧
      fs.walk fs.root segs.dropLast = some g := by
  rcases segs.eq_nil_or_concat with rfl | ⟨init, last, rfl⟩
  · rw [isDirectory_root (FileSystem.target_of_reach hreach)] at hfile
    cases hfile
  · rw [List.concat_eq_append] at *
    have hcut : Cut (init ++ [last]) init last [] :=
      ⟨rfl, fun segment hmem => hclean segment (List.mem_append_left _ hmem), .inr rfl⟩
    have htarget := FileSystem.target_of_reach hreach
    rw [absolutePath_eq_lead (by simp)] at htarget ⊢
    rw [hcut.target_lead fs hsegs.slash_not_mem, ← List.cons_append, fs.walk_concat] at htarget
    obtain ⟨g, hg, -⟩ := Option.bind_eq_some_iff.1 htarget
    rw [hcut.reachHolder_lead fs hsegs.slash_not_mem, List.dropLast_concat]
    exact ⟨g, hg, fs.walk_of_empty hg⟩

end

/-! ## What a call gets at -/

/-- At most one object is got at, and one of this kind. -/
def GetsAt (P : Access → Prop) (s s' : OsState) : Prop :=
  s'.accesses = s.accesses ∨ ∃ access, P access ∧ s'.accesses = access :: s.accesses

theorem GetsAt.imp {P Q : Access → Prop} {s s' : OsState} (h : GetsAt P s s')
    (himp : ∀ access, P access → Q access) : GetsAt Q s s' :=
  h.imp_right fun hone => hone.imp fun access hp => ⟨himp access hp.1, hp.2⟩

section

theorem openFile_getsAt (env : Environment) (path : Bytes) (s : OsState) :
    GetsAt (fun access => ∃ i, access = .served i ∧ env.fs.reach path = some i) s
      (s.openFile env path).2 := by
  unfold OsState.openFile
  cases hreach : env.fs.reach path with
  | none => exact .inl rfl
  | some i =>
      dsimp only
      split_ifs
      · cases env.newFd s.openFds with
        | none => exact .inl rfl
        | some fd => exact .inr ⟨.served i, ⟨i, rfl, rfl⟩, rfl⟩
      · exact .inl rfl

theorem serveOpenFile_accesses (env : Environment) (path : Bytes) (request : HttpRequest)
    (st : Stat) (fd : Fd) (s : OsState) :
    (serveOpenFile env path request st fd s).2.accesses = s.accesses := by
  unfold serveOpenFile
  dsimp only
  split_ifs
  · cases parseRange (getHeader request.headers (ascii "range")) st.size with
    | error e => rfl
    | ok range => cases range <;> rfl
  · rfl

theorem serveStaticFile_getsAt (env : Environment) (path : Bytes) (request : HttpRequest)
    (s : OsState) :
    GetsAt (fun access => ∃ i, access = .served i ∧ env.fs.reach path = some i) s
      (serveStaticFile env path request s).2 := by
  unfold serveStaticFile
  cases env.fs.statPath path with
  | none => exact .inl rfl
  | some st =>
      dsimp only
      split_ifs
      · exact .inl rfl
      · exact .inl rfl
      · exact .inl rfl
      · have hopen := openFile_getsAt env path s
        cases hcall : s.openFile env path with
        | mk fd s' =>
            rw [hcall] at hopen
            cases fd with
            | none => exact hopen
            | some fd =>
                dsimp only
                rw [GetsAt, serveOpenFile_accesses]
                exact hopen

theorem runCgi_getsAt (env : Environment) (config : Config) (path : Bytes)
    (request : HttpRequest) (vhost : Option VirtualHost) (clientRemoteAddr : Option Bytes)
    (s : OsState) :
    GetsAt (fun access => ∃ i, access = .executed i ∧ env.fs.reach path = some i) s
      (runCgi env config path request vhost clientRemoteAddr s).2 := by
  unfold runCgi
  cases env.fs.reach path with
  | none => exact .inl rfl
  | some i =>
      dsimp only
      split_ifs
      · exact .inr ⟨.executed i, ⟨i, rfl, rfl⟩, rfl⟩
      · exact .inl rfl

theorem buildListing_getsAt (env : Environment) (uriPath path : Bytes) (s : OsState) :
    GetsAt (fun access => ∃ i, access = .listed i ∧ env.fs.reach path = some i) s
      (buildListing env uriPath path s).2 := by
  unfold buildListing
  cases env.fs.reach path with
  | none => exact .inl rfl
  | some i =>
      dsimp only
      split_ifs
      · exact .inr ⟨.listed i, ⟨i, rfl, rfl⟩, rfl⟩
      · exact .inl rfl

/-- An index file, if there is one, and else the directory. -/
theorem serveDirectoryIndex_getsAt (env : Environment) (path documentRoot : Bytes)
    (request : HttpRequest) (s : OsState) :
    GetsAt (fun access => ∃ i,
      access = .listed i ∧ env.fs.reach path = some i ∨
      ∃ file ∈ indexCandidates path request documentRoot,
        access = .served i ∧ env.fs.reach file = some i) s
      (serveDirectoryIndex env path request documentRoot s).2 := by
  cases hindex : indexFile env.fs path request documentRoot with
  | some file =>
      have hfile := List.mem_of_find?_eq_some hindex
      rw [serveDirectoryIndex_file hindex]
      exact (serveStaticFile_getsAt env file request s).imp
        fun access hserved => hserved.imp fun i hi => .inr ⟨file, hfile, hi⟩
  | none =>
      have hlisting := fun uriPath => (buildListing_getsAt env uriPath path s).imp
        (Q := fun access => ∃ i, access = .listed i ∧ env.fs.reach path = some i ∨
          ∃ file ∈ indexCandidates path request documentRoot,
            access = .served i ∧ env.fs.reach file = some i)
        fun access hlisted => hlisted.imp fun i hi => .inl hi
      rw [serveDirectoryIndex, hindex]
      dsimp only
      split_ifs
      · exact hlisting _
      · exact hlisting _

end

/-! ## What a request gets at -/

section

variable {env : Environment} {config : Config} {request : HttpRequest} {vhost : VirtualHost}
  {st : Stat} {i : Inode} {segs : List Bytes}

theorem Admitted.accessRoute (h : Admitted env request vhost st) :
    CppHttpd.accessRoute env request vhost =
      contentRoute request vhost (resolvedPath request vhost) st := by
  have hstat := h.stat
  have hauth := h.auth
  unfold resolvedPath at hstat hauth ⊢
  unfold CppHttpd.accessRoute
  simp only [if_neg h.load, h.under, Bool.true_eq_false, if_false, hstat, hauth]

theorem absolutePath_concat (hsegs : Normal segs) (name : Bytes) :
    (if absolutePath segs = [] ∨ (absolutePath segs).getLast? ≠ some SLASH then
      absolutePath segs ++ [SLASH] else absolutePath segs) ++ name =
      absolutePath (segs ++ [name]) := by
  by_cases hne : segs = []
  · subst hne
    simp [absolutePath, List.intercalate]
  · rw [if_pos (.inr (absolutePath_getLast hsegs hne)), absolutePath_eq_lead hne,
      absolutePath_eq_lead (by simp), lead_append, List.append_assoc]
    simp [lead]

/-- An index file is an entry of its directory. -/
theorem indexCandidates_path (hsegs : Normal segs) {documentRoot file : Bytes}
    (hfile : file ∈ indexCandidates (absolutePath segs) request documentRoot) :
    ∃ name, Normal [name] ∧ NUL ∉ name ∧ file = absolutePath (segs ++ [name]) := by
  have hnormal : ∀ name, SLASH ∉ name → pathRule.Plain name → Normal [name] := by
    intro name hslash hplain segment hmem
    rw [List.mem_singleton.1 hmem]
    exact ⟨hslash, hplain⟩
  have hdesktop : Normal [ascii "index.html"] :=
    hnormal _ (by decide) ((plain_iff _).2 (by decide))
  have hmobile : Normal [ascii "index_m.html"] :=
    hnormal _ (by decide) ((plain_iff _).2 (by decide))
  unfold indexCandidates at hfile
  dsimp only at hfile
  rw [absolutePath_concat hsegs, absolutePath_concat hsegs] at hfile
  split_ifs at hfile
  · simp only [List.mem_cons, List.not_mem_nil, or_false] at hfile
    rcases hfile with rfl | rfl
    · exact ⟨_, hmobile, by decide, rfl⟩
    · exact ⟨_, hdesktop, by decide, rfl⟩
  · rw [List.mem_singleton] at hfile
    exact ⟨_, hdesktop, by decide, hfile⟩

/-- The document root is a path as it is written in the file system. -/
structure Rooted (vhost : VirtualHost) : Prop where
  absolute : vhost.documentRoot.head? = some SLASH
  clean : NUL ∉ vhost.documentRoot

theorem guardDirectory_self {fs : FileSystem} (hdir : fs.isDirectory i = true) (path : Bytes) :
    guardDirectory fs path i = some i := by
  rw [guardDirectory, if_pos hdir]

/-- A file is checked where the path of its directory is. -/
theorem htaccessPath_dropLast (hsegs : Normal segs) (hne : segs ≠ []) (hkind : st.kind ≠ .directory) :
    htaccessPath (dirOfResource (absolutePath segs) st) =
      htaccessPath (absolutePath segs.dropLast) := by
  obtain ⟨init, last, rfl⟩ := (List.eq_nil_or_concat segs).resolve_left hne
  rw [List.concat_eq_append] at *
  rw [absolutePath_eq_lead hne, dirOfResource_lead (hsegs.slash_not_mem last (by simp)) hkind,
    List.dropLast_concat]
  by_cases hinit : init = []
  · subst hinit
    decide
  · rw [absolutePath_eq_lead hinit]

/-- The object that the names below the root lead to, whose access file was asked. -/
structure Located (fs : FileSystem) (vhost : VirtualHost) (request : HttpRequest)
    (names : List Bytes) (i : Inode) : Prop where
  normal : Normal (normalSegments vhost.documentRoot ++ names)
  clean : ∀ segment ∈ normalSegments vhost.documentRoot ++ names, NUL ∉ segment
  reach : fs.reach (absolutePath (normalSegments vhost.documentRoot ++ names)) = some i
  credentials : fs.Within (htaccessPath (dirOfResource
      (absolutePath (normalSegments vhost.documentRoot ++ names)) (fs.stat i))) → ∀ g,
    guardDirectory fs (absolutePath (normalSegments vhost.documentRoot ++ names)) i = some g →
    ∀ htaccess, accessFile fs g = some htaccess → checkCredentials htaccess request = .ok

namespace Located

variable {fs : FileSystem} {names : List Bytes} (h : Located fs vhost request names i)

include h

theorem walk : fs.walk fs.root (normalSegments vhost.documentRoot ++ names) = some i :=
  reach_absolutePath h.normal h.clean h.reach

theorem names_normal : Normal names :=
  fun segment hmem => h.normal segment (List.mem_append_right _ hmem)

theorem exposed_file (hfile : fs.isDirectory i = false) {access : Access}
    (haccess : access = .served i ∨ access = .executed i) : Exposed fs vhost request access := by
  obtain ⟨g, hholder, hwalk⟩ := exists_holder h.normal h.clean h.reach hfile
  have hguard : guardDirectory fs
      (absolutePath (normalSegments vhost.documentRoot ++ names)) i = some g := by
    rw [guardDirectory, hfile]
    exact hholder
  have hkind : (fs.stat i).kind ≠ .directory := by simpa [FileSystem.isDirectory] using hfile
  have hne : normalSegments vhost.documentRoot ++ names ≠ [] := by
    intro hnil
    have hreach := FileSystem.target_of_reach h.reach
    rw [hnil] at hreach
    rw [isDirectory_root hreach] at hfile
    cases hfile
  have hcredentials := h.credentials
  rw [htaccessPath_dropLast h.normal hne hkind] at hcredentials
  rcases haccess with rfl | rfl
  · exact ⟨names, g, h.names_normal, h.walk, hwalk, fun hwithin => hcredentials hwithin g hguard⟩
  · exact ⟨names, g, h.names_normal, h.walk, hwalk, fun hwithin => hcredentials hwithin g hguard⟩

theorem credentials_directory (hdir : fs.isDirectory i = true)
    (hwithin : fs.Within (htaccessPath
      (absolutePath (normalSegments vhost.documentRoot ++ names)))) :
    ∀ htaccess, accessFile fs i = some htaccess → checkCredentials htaccess request = .ok := by
  have hkind : (fs.stat i).kind = .directory := by simpa [FileSystem.isDirectory] using hdir
  have hcredentials := h.credentials
  rw [dirOfResource, if_pos hkind] at hcredentials
  exact hcredentials hwithin i (guardDirectory_self hdir _)

theorem exposed_listing (hdir : fs.isDirectory i = true) :
    Exposed fs vhost request (.listed i) :=
  ⟨names, i, h.names_normal, h.walk, h.walk, h.credentials_directory hdir⟩

theorem exposed_index (hdir : fs.isDirectory i = true) {documentRoot file : Bytes} {j : Inode}
    (hfile : file ∈ indexCandidates
      (absolutePath (normalSegments vhost.documentRoot ++ names)) request documentRoot)
    (hj : fs.reach file = some j) : Exposed fs vhost request (.served j) := by
  obtain ⟨name, hname, hnul, rfl⟩ := indexCandidates_path h.normal hfile
  have hentry := reach_absolutePath (h.normal.append hname)
    (List.forall_mem_append.2 ⟨h.clean, by simpa using hnul⟩) hj
  have hinside : (Access.served j).directory
      (normalSegments vhost.documentRoot ++ (names ++ [name])) =
        normalSegments vhost.documentRoot ++ names := by
    rw [← List.append_assoc, Access.directory, List.dropLast_concat]
  rw [List.append_assoc] at hentry
  refine ⟨names ++ [name], i, h.names_normal.append hname, hentry, ?_, ?_⟩
  · rw [hinside]
    exact h.walk
  · rw [hinside]
    exact h.credentials_directory hdir

end Located

theorem Admitted.located {acceptingNewConnections : Bool} {clientRemoteAddr : Option Bytes}
    {s : OsState} (h : Admitted env request vhost st)
    (hvhost : resolveVhost config.virtualHosts request = some vhost) (hroot : Rooted vhost)
    (huri : NUL ∉ request.uri)
    (haccess : (handle env config request acceptingNewConnections clientRemoteAddr s).2.accesses ≠
      s.accesses) :
    ∃ names i, env.fs.stat i = st ∧
      resolvedPath request vhost = absolutePath (normalSegments vhost.documentRoot ++ names) ∧
      Located env.fs vhost request names i := by
  obtain ⟨names, hnormal, hpath, hrun⟩ := resolvedPath_below hroot.absolute h.under
  have hclean := not_mem_resolved hroot.clean huri (by decide) hrun
  obtain ⟨i, hreach, hst⟩ := Option.map_eq_some_iff.1 h.stat
  refine ⟨names, i, hst, hpath, hnormal, hclean, hpath ▸ hreach,
    fun hwithin g hguard htaccess hfile => ?_⟩
  have hguarded : Guarded env.fs request vhost := by
    refine guarded_of_clean (hpath ▸ not_mem_absolutePath (by decide) hclean) fun j hj => ?_
    obtain rfl := Option.some.inj (hreach.symm.trans hj)
    rwa [hpath]
  exact authEnforced_of_guarded hvhost hroot.absolute hguarded acceptingNewConnections
    clientRemoteAddr s i g htaccess hreach (hpath ▸ hguard) hfile haccess

theorem handle_getsAt (hvhost : resolveVhost config.virtualHosts request = some vhost)
    (hroot : Rooted vhost) (huri : NUL ∉ request.uri) (acceptingNewConnections : Bool)
    (clientRemoteAddr : Option Bytes) (s : OsState) :
    GetsAt (Exposed env.fs vhost request) s
      (handle env config request acceptingNewConnections clientRemoteAddr s).2 := by
  by_cases hsame :
    (handle env config request acceptingNewConnections clientRemoteAddr s).2.accesses = s.accesses
  · exact .inl hsame
  obtain ⟨st, hadmitted⟩ := admitted_of_access hvhost hsame
  obtain ⟨names, i, hst, hpath, hlocated⟩ := hadmitted.located hvhost hroot huri hsame
  have hroute : route env config request =
      contentRoute request vhost (resolvedPath request vhost) st := by
    rw [route, hvhost]
    exact hadmitted.accessRoute
  have hkind (kind : FileKind) (hkind : st.kind = kind) :
      env.fs.isDirectory i = decide (kind = .directory) := by
    rw [FileSystem.isDirectory, hst, hkind]
  have hfound {j : Inode} (hj : env.fs.reach
      (absolutePath (normalSegments vhost.documentRoot ++ names)) = some j) : j = i :=
    Option.some.inj (hj.symm.trans hlocated.reach)
  rw [handle_eq, hroute, hpath]
  unfold contentRoute
  split_ifs with hoptions hcgi hpost
  · exact absurd hoptions hadmitted.method
  · refine (runCgi_getsAt env config _ request (some vhost) clientRemoteAddr s).imp ?_
    rintro access ⟨j, rfl, hj⟩
    exact hlocated.exposed_file (hkind _ hcgi.1) (.inr (by rw [hfound hj]))
  · exact .inl rfl
  · cases hregular : st.kind with
    | regular =>
        rw [GetsAt]
        simp only [answer, withoutBody_accesses]
        refine (serveStaticFile_getsAt env _ request s).imp ?_
        rintro access ⟨j, rfl, hj⟩
        exact hlocated.exposed_file (hkind _ hregular) (.inl (by rw [hfound hj]))
    | directory =>
        rw [GetsAt]
        simp only [answer, withoutBody_accesses]
        refine (serveDirectoryIndex_getsAt env _ _ request s).imp ?_
        rintro access ⟨j, ⟨rfl, hj⟩ | ⟨file, hfile, rfl, hj⟩⟩
        · rw [hfound hj]
          exact hlocated.exposed_listing (hkind _ hregular)
        · exact hlocated.exposed_index (hkind _ hregular) hfile hj
    | other => exact .inl rfl

end

end CppHttpd
