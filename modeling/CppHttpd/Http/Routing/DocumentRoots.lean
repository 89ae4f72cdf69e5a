import CppHttpd.Config.ConfigText
import CppHttpd.Http.Routing.AcceptedPath
import Mathlib.Algebra.GroupWithZero.Nat
import Mathlib.Algebra.Order.BigOperators.Group.List
import Mathlib.Algebra.Order.Group.Nat

/-!
# Document roots

From the text of the configuration to the paths that are served: `load_config`
takes the root from the block of the host, `main` makes it absolute, and
`resolve_path` compares with it.  An empty root is the prefix of every path.
-/

namespace CppHttpd

open CppHttpd.Foundation

/-! ## `main` -/

/-- What `getcwd` and `realpath` return; `none` is a failure. -/
structure WorkingDirectory where
  getcwd : Option Bytes
  realpath : Bytes → Option Bytes
  getcwd_absolute : ∀ base ∈ getcwd, base.head? = some SLASH
  realpath_absolute : ∀ path, ∀ resolved ∈ realpath path, resolved.head? = some SLASH

/-- A relative root is taken from the working directory, if that is known. -/
def mainRoot (os : WorkingDirectory) (documentRoot : Bytes) : Bytes :=
  match os.getcwd with
  | none => documentRoot
  | some base =>
      if documentRoot ≠ [] ∧ documentRoot.head? ≠ some SLASH then
        let documentRoot := base ++ ascii "/" ++ documentRoot
        match os.realpath (cString documentRoot) with
        | some resolved => resolved
        | none => documentRoot
      else documentRoot

def mainHost (os : WorkingDirectory) (vhost : VirtualHost) : VirtualHost :=
  { vhost with documentRoot := mainRoot os vhost.documentRoot }

/-- The hosts that the server is started with. -/
def startedHosts (os : WorkingDirectory) (config : Config) : List VirtualHost :=
  config.virtualHosts.map (mainHost os)

/-! ## Lying under a root -/

def takenFrom (base path : Bytes) : Bytes :=
  if path.head? = some SLASH then path else base ++ SLASH :: path

/-- Wherever a relative path is taken from, the names of the root begin the names of the path. -/
def LiesUnder (root path : Bytes) : Prop :=
  ∀ base, base.head? = some SLASH →
    normalSegments (takenFrom base root) <+: normalSegments (takenFrom base path)

/-- A relative path to something below the directory it is taken from. -/
def StaysBelow (path : Bytes) : Prop :=
  pathRule.climb 0 (segments path) = 0 ∧ normalSegments path ≠ []

instance (path : Bytes) : Decidable (StaysBelow path) := inferInstanceAs (Decidable (_ ∧ _))

theorem takenFrom_absolute {path : Bytes} (habs : path.head? = some SLASH) (base : Bytes) :
    takenFrom base path = path := if_pos habs

theorem normalSegments_takenFrom {path : Bytes} (hrel : path.head? ≠ some SLASH) (base : Bytes) :
    normalSegments (takenFrom base path) =
      (normalSegments base).take
          ((normalSegments base).length - pathRule.climb 0 (segments path)) ++
        normalSegments path := by
  have hrun := StackRule.run_eq_take (R := pathRule) (segments path) (normalSegments base) []
  rw [takenFrom, if_neg hrel, normalSegments_append_slash, ← List.append_nil (normalSegments base),
    hrun, List.append_nil]
  rfl

/-! ## Roots that confine -/

/-- Everything that is resolved below the root lies under it. -/
def Confines (root : Bytes) : Prop :=
  ∀ (serverName uri : Bytes), (resolvePath ⟨root, serverName⟩ uri).2 = true →
    LiesUnder root (resolvePath ⟨root, serverName⟩ uri).1

theorem confines_absolute {root : Bytes} (habs : root.head? = some SLASH) : Confines root := by
  intro serverName uri haccepted base _
  obtain ⟨hunder, hpath, -⟩ := resolvePath_confined ⟨root, serverName⟩ uri habs
  obtain ⟨hwritten, -, hsegs⟩ := hpath haccepted
  have hhead : (resolvePath ⟨root, serverName⟩ uri).1.head? = some SLASH := by
    rw [hwritten]
    rfl
  rw [takenFrom_absolute habs, takenFrom_absolute hhead, hsegs]
  exact hunder.1 haccepted

theorem climb_plain {segs : List Bytes} (hplain : ∀ segment ∈ segs, pathRule.Plain segment)
    (depth : Nat) : pathRule.climb depth segs = 0 := by
  induction segs generalizing depth with
  | nil => rfl
  | cons segment segs ih =>
      obtain ⟨⟨hskip, hup⟩, hrest⟩ := List.forall_mem_cons.1 hplain
      rw [StackRule.climb, if_neg (by simp [hskip]), if_neg (by simp [hup])]
      exact ih hrest _

theorem confines_relative {root : Bytes} (hrel : root.head? ≠ some SLASH)
    (hbelow : StaysBelow root) : Confines root := by
  intro serverName uri haccepted base _
  obtain ⟨hclimb, hne⟩ := hbelow
  generalize hresolved : resolvePath ⟨root, serverName⟩ uri = resolved at haccepted
  obtain ⟨path, accepted⟩ := resolved
  obtain rfl : accepted = true := haccepted
  obtain ⟨hpath, hunder⟩ := resolvePath_accepted hresolved
  obtain ⟨hbelow, hwritten, hsegs⟩ := normalSegments_prefix_of_relative hrel hne hunder
  rw [hpath, normalizePath_idem, ← hpath] at hwritten
  have hnormal := normalSegments_normal path
  have hhead : path.head? ≠ some SLASH := by
    rw [hwritten]
    exact relativePath_head hnormal hsegs
  have hplain : pathRule.climb 0 (segments path) = 0 := by
    rw [hwritten, segments_relativePath hnormal hsegs]
    exact climb_plain hnormal.plain 0
  rw [normalSegments_takenFrom hrel, normalSegments_takenFrom hhead, hclimb, hplain]
  exact (List.prefix_append_right_inj _).2 hbelow

/-! ## Roots that do not -/

/-- The URI `/` is accepted below every root, and is the root itself. -/
theorem resolvePath_slash (root serverName : Bytes) :
    resolvePath ⟨root, serverName⟩ [SLASH] = (normalizePath root, true) := by
  have hcombined : combinePath root [SLASH] = root := by
    rw [combinePath, if_pos (.inr rfl)]
  have hunder : pathUnderRoot (normalizePath root) root = true := by
    unfold pathUnderRoot
    rw [normalizePath_idem]
    by_cases hlast : (normalizePath root).getLast? = some SLASH
    · have hslash : normalizePath root = [SLASH] := by
        by_contra hne
        exact (normalizePath_form root hne).2 hlast
      rw [hslash]
      rfl
    · simp [hlast]
  unfold resolvePath
  simp only [hcombined, hunder, if_true]

/-- A directory so deep below others of one name that no path climbs out of it. -/
theorem exists_deep (segs : List Bytes) (n : Nat) :
    ∃ base name, base.head? = some SLASH ∧ normalSegments base = List.replicate (n + 2) name ∧
      name ∉ segs := by
  let name := List.replicate ((segs.map List.length).sum + 1) (byteOf 'z')
  have hz : byteOf 'z' ≠ SLASH ∧ byteOf 'z' ≠ DOT := by decide
  have hdot : ∀ c ∈ ascii ".", c = DOT := forall_mem_of_all (by decide)
  have hdots : ∀ c ∈ ascii "..", c = DOT := forall_mem_of_all (by decide)
  have hmem : byteOf 'z' ∈ name := by simp [name]
  have hnormal : Normal (List.replicate (n + 2) name) := by
    intro segment hsegment
    obtain rfl := List.eq_of_mem_replicate hsegment
    refine ⟨fun hslash => hz.1 (List.eq_of_mem_replicate hslash).symm,
      (plain_iff _).2 ⟨?_, ?_, ?_⟩⟩
    · exact List.ne_nil_of_mem hmem
    · intro heq
      rw [heq] at hmem
      exact hz.2 (hdot _ hmem)
    · intro heq
      rw [heq] at hmem
      exact hz.2 (hdots _ hmem)
  refine ⟨absolutePath (List.replicate (n + 2) name), name, rfl,
    normalSegments_absolutePath hnormal, fun hname => ?_⟩
  have hle := List.le_sum_of_mem (List.mem_map_of_mem (f := List.length) hname)
  simp only [name, List.length_replicate] at hle
  omega

/-- A relative root that climbs out of where it is taken from, or that names nothing. -/
theorem not_liesUnder {root : Bytes} (hrel : root.head? ≠ some SLASH)
    (hbelow : ¬ StaysBelow root) : ¬ LiesUnder root (normalizePath root) := by
  intro hunder
  have hnormal := normalSegments_normal root
  obtain ⟨base, name, habs, hbase, hname⟩ :=
    exists_deep (normalSegments root) (pathRule.climb 0 (segments root))
  have hprefix := hunder base habs
  rw [normalSegments_takenFrom hrel, hbase, List.length_replicate, List.take_replicate] at hprefix
  by_cases hnil : normalSegments root = []
  · -- the path is the root of the file system
    have hpath : normalizePath root = [SLASH] := by
      rw [normalizePath_relative hrel, if_pos hnil]
    rw [hpath, takenFrom_absolute rfl, hnil, List.append_nil] at hprefix
    have hlen := hprefix.length_le
    have hroot : normalSegments [SLASH] = [] := by decide
    rw [hroot, List.length_replicate, List.length_nil] at hlen
    omega
  · have hclimb : pathRule.climb 0 (segments root) ≠ 0 := fun hzero => hbelow ⟨hzero, hnil⟩
    have hpath : normalizePath root = relativePath (normalSegments root) := by
      rw [normalizePath_relative hrel, if_neg hnil]
    have hrhs : normalSegments (takenFrom base (normalizePath root)) =
        List.replicate (pathRule.climb 0 (segments root) + 2) name ++ normalSegments root := by
      rw [hpath, normalSegments_takenFrom (relativePath_head hnormal hnil), hbase,
        segments_relativePath hnormal hnil, climb_plain hnormal.plain,
        normalSegments_relativePath hnormal hnil, List.length_replicate, Nat.sub_zero,
        List.take_replicate, Nat.min_self]
    obtain ⟨n, hn⟩ := Nat.exists_eq_add_one_of_ne_zero hclimb
    obtain ⟨first, rest, hsegs⟩ := List.exists_cons_of_ne_nil hnil
    have hmin : min (n + 1 + 2 - (n + 1)) (n + 1 + 2) = 2 := by omega
    rw [hrhs, hn, hmin, hsegs] at hprefix
    -- behind two names the root has its first segment, and the path has a third name
    simp only [List.replicate_succ, List.replicate_zero, List.cons_append, List.nil_append,
      List.cons_prefix_cons, true_and] at hprefix
    rw [hsegs, hprefix.1] at hname
    exact hname List.mem_cons_self

theorem confines_iff (root : Bytes) :
    Confines root ↔ root.head? = some SLASH ∨ StaysBelow root := by
  constructor
  · intro hconfines
    by_cases habs : root.head? = some SLASH
    · exact .inl habs
    · right
      by_contra hbelow
      have hslash := hconfines [] [SLASH]
      rw [resolvePath_slash] at hslash
      exact not_liesUnder habs hbelow (hslash rfl)
  · rintro (habs | hbelow)
    · exact confines_absolute habs
    · by_cases habs : root.head? = some SLASH
      · exact confines_absolute habs
      · exact confines_relative habs hbelow

/-! ## What `main` makes of a root -/

theorem confines_mainRoot_iff (os : WorkingDirectory) {root : Bytes} (hne : root ≠ []) :
    Confines (mainRoot os root) ↔
      root.head? = some SLASH ∨ os.getcwd ≠ none ∨ StaysBelow root := by
  rw [confines_iff]
  unfold mainRoot
  cases hcwd : os.getcwd with
  | none => simp
  | some base =>
      have hbase := os.getcwd_absolute base hcwd
      have habs : ∀ {path : Bytes}, path.head? = some SLASH →
          (path.head? = some SLASH ∨ StaysBelow path ↔
            root.head? = some SLASH ∨ some base ≠ none ∨ StaysBelow root) := by
        intro path hpath
        exact ⟨fun _ => .inr (.inl nofun), fun _ => .inl hpath⟩
      dsimp only
      split_ifs with hrel
      · cases hresolved : os.realpath (cString (base ++ ascii "/" ++ root)) with
        | none => exact habs (by simp [hbase])
        | some resolved => exact habs (os.realpath_absolute _ _ hresolved)
      · apply habs
        by_contra hhead
        exact hrel ⟨hne, hhead⟩

/-! ## Configurations -/

/-- The root that the block gives its host. -/
def blockRoot (block : Settings) : Option Bytes := lastSetting (ascii "DocumentRoot") block

/-- The root of the block is written, and does not depend on a working directory that is unknown. -/
def UsableRoot (os : WorkingDirectory) (block : Settings) : Prop :=
  ∃ root, blockRoot block = some root ∧ root ≠ [] ∧
    (root.head? = some SLASH ∨ os.getcwd ≠ none ∨ StaysBelow root)

section

variable {os : WorkingDirectory} {block : Settings}

/-- What the host of the block serves lies under its root. -/
def ConfinesHost (os : WorkingDirectory) (block : Settings) (vhost : VirtualHost) : Prop :=
  ∀ uri, (resolvePath vhost uri).2 = true →
    ∃ root, blockRoot block = some root ∧ root ≠ [] ∧
      LiesUnder (mainRoot os root) (resolvePath vhost uri).1

theorem mainHost_root {root : Bytes} (hroot : blockRoot block = some root) :
    (mainHost os (hostFrom ⟨[], []⟩ block)).documentRoot = mainRoot os root := by
  rw [blockRoot] at hroot
  rw [mainHost, hostFrom, hroot]
  rfl

/-- A host without a root serves the whole file system. -/
theorem exists_root_of_confinesHost
    (h : ConfinesHost os block (mainHost os (hostFrom ⟨[], []⟩ block))) :
    ∃ root, blockRoot block = some root ∧ root ≠ [] := by
  have hslash := h [SLASH]
  rw [resolvePath_slash] at hslash
  obtain ⟨root, hroot, hne, -⟩ := hslash rfl
  exact ⟨root, hroot, hne⟩

theorem confinesHost_iff :
    ConfinesHost os block (mainHost os (hostFrom ⟨[], []⟩ block)) ↔ UsableRoot os block := by
  constructor
  · intro h
    obtain ⟨root, hroot, hne⟩ := exists_root_of_confinesHost h
    refine ⟨root, hroot, hne, (confines_mainRoot_iff os hne).1 fun serverName uri haccepted => ?_⟩
    have hsame : resolvePath (mainHost os (hostFrom ⟨[], []⟩ block)) uri =
        resolvePath ⟨mainRoot os root, serverName⟩ uri := by
      unfold resolvePath
      rw [mainHost_root hroot]
    obtain ⟨root', hroot', -, hunder⟩ := h uri (by rw [hsame]; exact haccepted)
    obtain rfl := Option.some.inj (hroot.symm.trans hroot')
    rwa [hsame] at hunder
  · rintro ⟨root, hroot, hne, husable⟩ uri haccepted
    have hconfines := (confines_mainRoot_iff os hne).2 husable
    refine ⟨root, hroot, hne, ?_⟩
    have hsame : resolvePath (mainHost os (hostFrom ⟨[], []⟩ block)) uri =
        resolvePath ⟨mainRoot os root, []⟩ uri := by
      unfold resolvePath
      rw [mainHost_root hroot]
    rw [hsame] at haccepted ⊢
    exact hconfines [] uri haccepted

end

/-- Whatever a host serves lies under the root that is written, and not empty, in its own block. -/
def ConfinesHosts (os : WorkingDirectory) (content : Bytes) (config : Config) : Prop :=
  ∀ written ∈ (blockSettings false (getLines LF content)).2.zip (startedHosts os config),
    ConfinesHost os written.1 written.2

theorem startedHosts_eq (os : WorkingDirectory) {content : Bytes} {config : Config}
    (hload : configLoop false {} (getLines LF content) = (true, config)) :
    startedHosts os config = (blockSettings false (getLines LF content)).2.map
      fun block => mainHost os (hostFrom ⟨[], []⟩ block) := by
  rw [startedHosts, hosts_eq hload, List.map_map]
  rfl

theorem confinesHosts_of_load (os : WorkingDirectory) {content : Bytes} {config : Config}
    (hload : configLoop false {} (getLines LF content) = (true, config)) :
    ConfinesHosts os content config ↔
      ∀ block ∈ (blockSettings false (getLines LF content)).2, UsableRoot os block := by
  have hzip : ∀ (blocks : List Settings) (host : Settings → VirtualHost),
      blocks.zip (blocks.map host) = blocks.map fun block => (block, host block) := by
    intro blocks host
    have hboth := List.zip_map' (l := blocks) (f := id) (g := host)
    rwa [List.map_id] at hboth
  rw [ConfinesHosts, startedHosts_eq os hload, hzip]
  simp only [List.forall_mem_map, confinesHost_iff]

/--
What the hosts of an accepted configuration serve lies under the roots that are
written in their own blocks exactly if the last `DocumentRoot` of every block is
not empty, and if it is relative the working directory is known or it stays below.
-/
theorem confinesHosts_iff (os : WorkingDirectory) (fs : FileSystem) (path content : Bytes)
    (config : Config) (hread : fs.readFile path = some content)
    (hload : loadConfig fs path {} = (true, config)) :
    ConfinesHosts os content config ↔
      ∀ block ∈ (blockSettings false (getLines LF content)).2, UsableRoot os block := by
  rw [loadConfig, hread] at hload
  exact confinesHosts_of_load os hload

/-- A server in `/srv`, where nothing is a link. -/
def srvDirectory : WorkingDirectory where
  getcwd := some (ascii "/srv")
  realpath _ := none
  getcwd_absolute := by
    rintro base ⟨⟩
    rfl
  realpath_absolute := by
    rintro path resolved ⟨⟩

/-- A root that is given twice, and is relative. -/
theorem confinesHosts_iff_relative :
    let content := ascii "<VirtualHost>\nDocumentRoot\nDocumentRoot ../www\n</VirtualHost>"
    let fs := FileSystem.flat [(ascii "httpd.conf", content)]
    let config := (loadConfig fs (ascii "/httpd.conf") {}).2
    (startedHosts srvDirectory config).map VirtualHost.documentRoot =
        [ascii "/srv/../www"] ∧
      (ConfinesHosts srvDirectory content config ↔
        ∀ block ∈ (blockSettings false (getLines LF content)).2,
          UsableRoot srvDirectory block) := by
  intro content fs config
  exact ⟨rfl, confinesHosts_iff srvDirectory fs (ascii "/httpd.conf") content config rfl rfl⟩

/-- A block without a root: `/etc/passwd` is served. -/
theorem not_confinesHosts :
    ¬ ∀ (os : WorkingDirectory) (fs : FileSystem) (path content : Bytes) (config : Config),
      fs.readFile path = some content → loadConfig fs path {} = (true, config) →
        ConfinesHosts os content config := by
  intro hall
  let content := ascii "<VirtualHost *>\nServerName a\n</VirtualHost>\n"
  let fs := FileSystem.flat [(ascii "httpd.conf", content)]
  have hconfines := hall srvDirectory fs (ascii "/httpd.conf") content _ rfl rfl
  have hhost := hconfines ([(ascii "ServerName", ascii "a")], ⟨[], ascii "a"⟩) List.mem_cons_self
  obtain ⟨root, hroot, -⟩ := hhost (ascii "/etc/passwd") (by decide)
  cases hroot

end CppHttpd
