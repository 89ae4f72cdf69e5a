import CppHttpd.Http.Core.RequestParser
import CppHttpd.Http.Handlers.AccessControl

/-!
# Where access control is bypassed

A directory whose path has a NUL byte is checked against itself, a file with a
slash behind the first NUL against its own content, and where the way to an access
file is too long for the kernel nothing is checked at all.  As long as directories
and links stay as they are, nothing else can go wrong.
-/

namespace CppHttpd

open CppHttpd.Foundation

/-! ## File systems with the same directories -/

/-- The same names and links, and the object of the path is of the same kind. -/
structure SameTree (fs fs' : FileSystem) (path : Bytes) : Prop where
  root : fs'.root = fs.root
  workingDirectory : fs'.workingDirectory = fs.workingDirectory
  entry : fs'.entry = fs.entry
  links : fs'.links = fs.links
  parent : fs'.parent = fs.parent
  directories : ∀ i, fs'.isDirectory i = fs.isDirectory i
  kind : ∀ i, fs.reach path = some i → (fs'.stat i).kind = (fs.stat i).kind

namespace SameTree

variable {fs fs' : FileSystem} {path : Bytes} (h : SameTree fs fs' path)

include h

theorem lookup (i : Inode) (name : Bytes) : fs'.lookup i name = fs.lookup i name := by
  simp only [FileSystem.lookup, h.directories, h.parent, h.entry]

theorem walk (i : Inode) (names : List Bytes) : fs'.walk i names = fs.walk i names := by
  induction names generalizing i with
  | nil => rfl
  | cons name names ih =>
      rw [FileSystem.walk, FileSystem.walk, h.lookup]
      exact congrArg _ (funext ih)

theorem linksOn (i : Inode) (names : List Bytes) : fs'.linksOn i names = fs.linksOn i names := by
  induction names generalizing i with
  | nil => rfl
  | cons name names ih =>
      rw [FileSystem.linksOn, FileSystem.linksOn, h.lookup, h.links]
      exact congrArg _ (congrArg _ (funext ih))

theorem start (p : Bytes) : fs'.start p = fs.start p := by
  simp only [FileSystem.start, h.root, h.workingDirectory]

theorem within (p : Bytes) : fs'.Within p ↔ fs.Within p := by
  rw [FileSystem.Within, FileSystem.Within, h.start, h.linksOn]

theorem reach (p : Bytes) : fs'.reach p = fs.reach p := by
  have htarget : fs'.target p = fs.target p := by
    simp only [FileSystem.target, h.start, h.walk]
  simp only [FileSystem.reach, h.within, htarget]

theorem guardDirectory (p : Bytes) (i : Inode) :
    CppHttpd.guardDirectory fs' p i = CppHttpd.guardDirectory fs p i := by
  simp only [CppHttpd.guardDirectory, FileSystem.reachHolder, h.directories, h.start, h.walk]

theorem accessEntry (g : Inode) : fs'.accessEntry g = fs.accessEntry g := by
  simp only [FileSystem.accessEntry, h.links, h.entry]

theorem dirOfResource {i : Inode} (hreach : fs.reach path = some i) (p : Bytes) :
    CppHttpd.dirOfResource p (fs'.stat i) = CppHttpd.dirOfResource p (fs.stat i) := by
  simp only [CppHttpd.dirOfResource, h.kind i hreach]

theorem asked {request : HttpRequest} {i j : Inode} (hreach : fs.reach path = some i) :
    Asked fs' request path i j ↔ Asked fs request path i j := by
  simp only [Asked, h.kind i hreach, h.within, h.dirOfResource hreach]

end SameTree

theorem SameTree.guarded {fs fs' : FileSystem} {request : HttpRequest} {vhost : VirtualHost}
    (h : SameTree fs fs' (resolvedPath request vhost)) (hguarded : Guarded fs request vhost) :
    Guarded fs' request vhost := by
  refine hguarded.imp_right fun hrest => hrest.imp_right fun hall i g j hreach hguard hentry hfile => ?_
  rw [h.reach] at hreach
  rw [h.guardDirectory] at hguard
  rw [h.accessEntry] at hentry
  rw [h.directories] at hfile
  exact (h.asked hreach).2 (hall i g j hreach hguard hentry hfile)

/-! ## Requests that are not refused -/

theorem withoutBody_accesses (request : HttpRequest) (call : Call HttpResponse) (s : OsState) :
    (withoutBody request call s).2.accesses = (call s).2.accesses := by
  unfold withoutBody
  cases call s with
  | mk result s' =>
      cases result with
      | error e => rfl
      | ok response =>
          unfold dropBody
          dsimp only
          split_ifs
          · cases response.bodyFd <;> rfl
          · rfl

def clientUser (request : HttpRequest) : Bytes :=
  let credentials := decodeBase64 ((getHeader request.headers (ascii "authorization")).drop 6)
  credentials.take ((find credentials COLON 0).getD 0)

theorem clientUser_of_ok {htaccess : HtaccessAuth} {request : HttpRequest}
    (h : checkCredentials htaccess request = .ok) :
    clientUser request = decodeBase64 htaccess.userB64 := by
  unfold checkCredentials at h
  unfold clientUser
  dsimp only at h ⊢
  split_ifs at h with hempty hbasic hcredentials
  simp only [substrFrom_eq] at h
  split at h
  · cases h
  · rename_i colonPos hcolon
    change find (decodeBase64 (List.drop 6 _)) COLON 0 = some colonPos at hcolon
    rw [hcolon]
    by_contra hne
    cases ite_eq_right_iff.1 h (.inl hne)

theorem exists_refusing (request : HttpRequest) :
    ∃ content htaccess, parseHtaccess content = some htaccess ∧
      checkCredentials htaccess request ≠ .ok := by
  by_cases ha : checkCredentials { userB64 := ascii "YQ==", authTypeBasic := true } request = .ok
  · refine ⟨ascii "AuthType Basic\nUser Yg==\n",
      { userB64 := ascii "Yg==", authTypeBasic := true }, rfl, fun hb => ?_⟩
    have hsame := (clientUser_of_ok ha).symm.trans (clientUser_of_ok hb)
    revert hsame
    decide
  · exact ⟨ascii "AuthType Basic\nUser YQ==\n", _, rfl, ha⟩

namespace FileSystem

variable (fs : FileSystem)

/--
Everything can be read and run, and only the access file has anything in it.  For a
directory as the object there are no regular files, so that it has no index file.
-/
def exposing (i h : Inode) (content : Bytes) : FileSystem where
  root := fs.root
  workingDirectory := fs.workingDirectory
  stat j :=
    { fs.stat j with
      kind := if fs.isDirectory i = true ∧ (fs.stat j).kind = .regular then .other
        else (fs.stat j).kind
      executable := true }
  entry := fs.entry
  links := fs.links
  parent := fs.parent
  readable _ := true
  content j := if j = h then content else []
  names := fs.names
  parent_directory j := by simp [fs.parent_directory]

variable {fs} {i h : Inode} {content : Bytes}

theorem exposing_kind (hdir : fs.isDirectory i = false) (j : Inode) :
    ((fs.exposing i h content).stat j).kind = (fs.stat j).kind :=
  if_neg fun hboth => by simp [hdir] at hboth

theorem exposing_not_regular (hdir : fs.isDirectory i = true) (j : Inode) :
    ((fs.exposing i h content).stat j).kind ≠ .regular := by
  simp only [exposing, hdir, true_and]
  split_ifs with hregular
  · simp
  · exact hregular

theorem exposing_sameTree {path : Bytes} (hreach : fs.reach path = some i) :
    SameTree fs (fs.exposing i h content) path where
  root := rfl
  workingDirectory := rfl
  entry := rfl
  links := rfl
  parent := rfl
  directories j := by
    change decide ((if fs.isDirectory i = true ∧ (fs.stat j).kind = .regular then FileKind.other
      else (fs.stat j).kind) = .directory) = decide ((fs.stat j).kind = .directory)
    split_ifs with hboth
    · simp [hboth.2]
    · rfl
  kind j hj := by
    obtain rfl : i = j := Option.some.inj (hreach.symm.trans hj)
    cases hdir : fs.isDirectory i with
    | false => exact exposing_kind hdir i
    | true =>
        have hkind : (fs.stat i).kind = .directory := by simpa [isDirectory] using hdir
        simp [exposing, hkind]

end FileSystem

theorem indexFile_of_no_file {fs : FileSystem} (h : ∀ j, (fs.stat j).kind ≠ .regular)
    (path : Bytes) (request : HttpRequest) (documentRoot : Bytes) :
    indexFile fs path request documentRoot = none := by
  unfold indexFile
  rw [List.find?_eq_none]
  intro candidate _
  cases hreach : fs.reach candidate with
  | none => simp [isRegularFile, FileSystem.statPath, hreach]
  | some j => simp [isRegularFile, FileSystem.statPath, hreach, h j]

/-- A request for the object `i` that is to pass the access file `h`, which is not asked. -/
structure Unrefused (fs : FileSystem) (config : Config) (request : HttpRequest)
    (vhost : VirtualHost) (i g h : Inode) : Prop where
  host : resolveVhost config.virtualHosts request = some vhost
  root : vhost.documentRoot.head? = some SLASH
  method : request.method ≠ .OPTIONS
  load : ¬ (request.methodStr = ascii "GET" ∧ requestPath request = ascii "/load")
  reach : fs.reach (resolvedPath request vhost) = some i
  guard : guardDirectory fs (resolvedPath request vhost) i = some g
  entry : fs.accessEntry g = some h
  file : fs.isDirectory h = false
  unasked : ¬ Asked fs request (resolvedPath request vhost) i h

namespace Unrefused

variable {fs : FileSystem} {config : Config} {request : HttpRequest} {vhost : VirtualHost}
  {i g h : Inode} {content : Bytes}

theorem under (hu : Unrefused fs config request vhost i g h) :
    (resolvePath vhost (requestPath request)).2 = true := by
  have hreach := hu.reach
  revert hreach
  unfold resolvedPath resolvePath
  dsimp only
  split_ifs
  · simp
  · simp [FileSystem.reach, FileSystem.target, cString]

theorem sameTree (hu : Unrefused fs config request vhost i g h) (content : Bytes) :
    SameTree fs (fs.exposing i h content) (resolvedPath request vhost) :=
  FileSystem.exposing_sameTree hu.reach

theorem accessFile_exposing (hu : Unrefused fs config request vhost i g h)
    {htaccess : HtaccessAuth} (hparse : parseHtaccess content = some htaccess) :
    accessFile (fs.exposing i h content) g = some htaccess := by
  have hfile := (hu.sameTree content).directories h
  rw [hu.file, FileSystem.isDirectory, decide_eq_false_iff_not] at hfile
  rw [accessFile, (hu.sameTree content).accessEntry, hu.entry, Option.bind_some,
    FileSystem.readInode, if_neg hfile]
  simp [FileSystem.exposing, hparse]

/-- What is checked instead of the access file holds nothing, or is not found. -/
theorem checkHtaccess_ok (hu : Unrefused fs config request vhost i g h) (content : Bytes) :
    checkHtaccessAndAuth (fs.exposing i h content)
      (dirOfResource (resolvedPath request vhost) ((fs.exposing i h content).stat i)) request =
        .ok := by
  have htree := hu.sameTree content
  have hreach : (fs.exposing i h content).reach (resolvedPath request vhost) = some i :=
    (htree.reach _).trans hu.reach
  have hempty : parseHtaccess [] = none := by decide
  have hnone {path : Bytes} (hnot : ¬ fs.Within path) :
      (fs.exposing i h content).reach path = none := if_neg fun hwithin =>
    hnot ((htree.within path).1 hwithin)
  obtain ⟨segs, hsegs, hpath⟩ := resolvedPath_eq hu.root hu.under
  have hunasked := hu.unasked
  rw [checkHtaccessAndAuth, FileSystem.readFile, htree.dirOfResource hu.reach]
  unfold Asked at hunasked
  cases hkind : (fs.stat i).kind with
  | other => simp [hkind] at hunasked
  | directory =>
      have hdir : ((fs.exposing i h content).stat i).kind = .directory :=
        (htree.kind i hu.reach).trans hkind
      simp only [hkind, not_or, not_and] at hunasked
      rw [dirOfResource, if_pos hkind]
      by_cases hnul : NUL ∈ resolvedPath request vhost
      · have hne : segs ≠ [] := by
          rintro rfl
          rw [hpath] at hnul
          revert hnul
          decide
        have hsame : cString (htaccessPath (resolvedPath request vhost)) =
            cString (resolvedPath request vhost) := by
          rw [hpath, absolutePath_eq_lead hne] at hnul ⊢
          rw [htaccessPath_lead hsegs, lead_append, cString_append_of_mem hnul]
        rw [FileSystem.reach_congr _ hsame, hreach, Option.bind_some, FileSystem.readInode,
          if_pos hdir]
        simp [FileSystem.exposing, hempty]
      · rw [hnone (hunasked.2 hnul)]
        rfl
  | regular =>
      have hfile : fs.isDirectory i = false := by simp [FileSystem.isDirectory, hkind]
      have hother : (fs.stat i).kind ≠ .directory := by simp [hkind]
      simp only [hkind] at hunasked
      have hchecked := reach_checked_file hsegs (hpath ▸ hu.reach) hfile hother (hpath ▸ hu.guard)
      rw [← hpath] at hchecked
      split_ifs at hunasked hchecked with hslash
      · have hself : ((fs.exposing i h content).stat i).kind ≠ .directory := by
          rw [htree.kind i hu.reach]
          exact hother
        rw [htree.reach, hchecked, Option.bind_some, FileSystem.readInode, if_neg hself]
        simp [FileSystem.exposing, Ne.symm hunasked, hempty]
      · rw [hnone hunasked]
        rfl

/-- The object is listed, or run. -/
theorem bypass (hu : Unrefused fs config request vhost i g h) (content : Bytes) :
    (handle (.still (fs.exposing i h content) fun _ => .exited []) config request true none
      {}).2.accesses ≠ [] := by
  have htree := hu.sameTree content
  have hreach : (fs.exposing i h content).reach (resolvedPath request vhost) = some i :=
    (htree.reach _).trans hu.reach
  have hstat : (fs.exposing i h content).statPath (resolvedPath request vhost) =
      some ((fs.exposing i h content).stat i) := by
    rw [FileSystem.statPath, hreach, Option.map_some]
  have hcheck := hu.checkHtaccess_ok content
  have hroute : route (.still (fs.exposing i h content) fun _ => .exited []) config request =
      contentRoute request vhost (resolvedPath request vhost)
        ((fs.exposing i h content).stat i) := by
    rw [resolvedPath] at hstat hcheck
    rw [route, hu.host]
    simp only [accessRoute, if_neg hu.load, hu.under, Bool.true_eq_false, if_false]
    simp only [Environment.still, hstat, hcheck]
    rfl
  have hkind := htree.kind i hu.reach
  have hunasked := hu.unasked
  unfold Asked at hunasked
  rw [handle_eq, hroute]
  cases hobject : (fs.stat i).kind with
  | other => simp [hobject] at hunasked
  | directory =>
      have hdir : fs.isDirectory i = true := by simp [FileSystem.isDirectory, hobject]
      simp only [hobject, not_or] at hunasked
      rw [hobject] at hkind
      have hindex : indexFile (Environment.still (fs.exposing i h content) fun _ => .exited []).fs
          (resolvedPath request vhost) request vhost.documentRoot = none :=
        indexFile_of_no_file (FileSystem.exposing_not_regular hdir) _ _ _
      rw [contentRoute, if_neg hu.method, if_neg (by simp [hkind]), if_neg hunasked.1, hkind, answer,
        withoutBody_accesses, serveDirectoryIndex, hindex]
      have hlisting : ∀ uriPath,
          (buildListing (.still (fs.exposing i h content) fun _ => .exited []) uriPath
            (resolvedPath request vhost) {}).2.accesses = [.listed i] := by
        have hlisted : (fs.exposing i h content).isDirectory i = true :=
          (htree.directories i).trans hdir
        have hreadable : (fs.exposing i h content).readable i = true := rfl
        simp [buildListing, Environment.still, hreach, hlisted, hreadable]
      dsimp only
      split_ifs <;> simp [hlisting]
  | regular =>
      rw [hobject] at hkind
      rw [contentRoute, if_neg hu.method, if_pos ⟨hkind, rfl⟩, answer]
      simp [runCgi, Environment.still, hreach, CgiEnding.started, CgiOutcome.started]

end Unrefused

section

variable {config : Config} {request : HttpRequest} {vhost : VirtualHost}

/--
As long as directories and links are as they are, access control holds whatever is
in the files, exactly if the way to every access file that is to be asked is one
that the kernel takes and no NUL byte cuts off.
-/
theorem authEnforced_iff (hvhost : resolveVhost config.virtualHosts request = some vhost)
    (habs : vhost.documentRoot.head? = some SLASH) (fs : FileSystem) :
    (∀ env acceptingNewConnections clientRemoteAddr s,
        SameTree fs env.fs (resolvedPath request vhost) →
        AuthEnforced env config request vhost acceptingNewConnections clientRemoteAddr s) ↔
      Guarded fs request vhost := by
  constructor
  · intro henforced
    by_contra hunguarded
    unfold Guarded at hunguarded
    push Not at hunguarded
    obtain ⟨hmethod, hload, i, g, h, hreach, hguard, hentry, hfile, hunasked⟩ := hunguarded
    have hu : Unrefused fs config request vhost i g h :=
      ⟨hvhost, habs, hmethod, fun hboth => hload hboth.1 hboth.2, hreach, hguard, hentry, hfile,
        hunasked⟩
    obtain ⟨content, htaccess, hparse, hrefused⟩ := exists_refusing request
    have htree := hu.sameTree content
    exact hrefused (henforced _ true none {} htree i g htaccess ((htree.reach _).trans hreach)
      ((htree.guardDirectory _ i).trans hguard) (hu.accessFile_exposing hparse)
      (hu.bypass content))
  · intro hguarded env acceptingNewConnections clientRemoteAddr s htree
    exact authEnforced_of_guarded hvhost habs (htree.guarded hguarded) _ _ _

end

/-- A path without NUL bytes, which leads to a file beside its access file. -/
theorem authEnforced_iff_plain :
    let vhost : VirtualHost := { documentRoot := ascii "/", serverName := ascii "localhost" }
    let config : Config := { virtualHosts := [vhost] }
    let request : HttpRequest := { uri := ascii "/private/../secret.txt?q" }
    let fs := FileSystem.flat [(ascii ".htaccess", []), (ascii "secret.txt", ascii "secret")]
    ∀ env acceptingNewConnections clientRemoteAddr s,
      SameTree fs env.fs (resolvedPath request vhost) →
      AuthEnforced env config request vhost acceptingNewConnections clientRemoteAddr s := by
  intro vhost config request fs
  refine (authEnforced_iff rfl rfl fs).2 (.inr (.inr fun i g h hreach _ _ _ => ?_))
  have hsecret : fs.reach (resolvedPath request vhost) = some 2 := by decide
  obtain rfl := Option.some.inj (hsecret.symm.trans hreach)
  have hwithin : fs.Within (htaccessPath
      (dirOfResource (resolvedPath request vhost) (fs.stat 2))) := by decide
  exact hwithin

/-- What a parser makes of a request that has a NUL and a slash behind a file. -/
def pathBehindNul : RequestParser :=
  RequestParser.feed {} (ascii "GET /secret.txt" ++ NUL :: ascii "/x HTTP/1.1\r\n\r\n")

/-- A root with a secret in it, for one user only. -/
def secretEnvironment : Environment :=
  .still (.flat [(ascii ".htaccess", ascii "AuthType Basic\nUser YQ==\nPassword Yg==\n"),
    (ascii "secret.txt", ascii "secret")]) fun _ => .forkFailed

def rootHost : VirtualHost := { documentRoot := ascii "/", serverName := ascii "localhost" }

/-- The only access file that is opened is the secret itself. -/
theorem secret_served_without_credentials :
    let request := pathBehindNul.getRequest.1
    let result := handle secretEnvironment { virtualHosts := [rootHost] } request true none {}
    pathBehindNul.hasRequest = true ∧
      result.1.toOption.map HttpResponse.statusCode = some .Ok ∧
      result.2.accesses = [.served 2] ∧
      ¬ AuthEnforced secretEnvironment { virtualHosts := [rootHost] } request rootHost true none
        {} := by
  have haccesses : (handle secretEnvironment { virtualHosts := [rootHost] }
      pathBehindNul.getRequest.1 true none {}).2.accesses = [.served 2] := by rfl
  refine ⟨by decide, by rfl, haccesses, fun henforced => ?_⟩
  have hok := henforced 2 0
    { userB64 := ascii "YQ==", passwordB64 := ascii "Yg==", authTypeBasic := true } rfl rfl rfl
    (by rw [haccesses]; simp)
  revert hok
  decide

end CppHttpd
