import CppHttpd.Config.ConfigFile

/-!
# Reading a configuration back

One turn of the loop does what its line says, and so the loop over a file that is
written as it should be gives the configuration that was written.
-/

namespace CppHttpd

open CppHttpd.Foundation

/-! ## One turn of the loop -/

theorem Directive.isValue {config : Config} {d : Directive} (h : d.Writable config) :
    IsValue (d.value config) := by
  simp only [Writable] at h
  simp only [Directive.value]
  cases hsetting : d.setting config with
  | inl n => exact isValue_toDecimal _
  | inr s =>
      rw [hsetting] at h
      exact h

theorem Directive.readsAs {config : Config} {d : Directive} (h : d.Writable config) :
    ReadsAs (d.text config) d.key (d.value config) :=
  readsAs_of_key d.isKey (Directive.isValue h)

theorem directiveLine_set {config : Config} {d : Directive} (h : d.Writable config)
    (out : Config) : directiveLine d.key (d.value config) out = some (d.set config out) := by
  have hnumber {n : Int} (hn : 0 < n ∧ n < 2 ^ 31) (f : Int → Config) :
      (parsePositiveInt (toDecimal n.toNat)).map f = some (f n) := by
    rw [parsePositiveInt_toDecimal hn.1 hn.2]
    rfl
  cases d with
  | Listen => exact hnumber h _
  | nThreads => exact hnumber h _
  | nSelectLoops => exact hnumber h _
  | Timeout => exact hnumber h _
  | LogFile => rfl
  | TLSCertFile => rfl
  | TLSKeyFile => rfl
  | TLSPort => exact hnumber h _

theorem configLine_blank (inVirtualHost : Bool) (out : Config) (layout : Layout) :
    configLine inVirtualHost out (extracted (layout.write [])) = some (inVirtualHost, out) := by
  unfold configLine
  rw [stripComment_write layout List.not_mem_nil]
  exact if_pos rfl

theorem configLine_directive {config : Config} {d : Directive} (h : d.Writable config)
    (out : Config) (layout : Layout) :
    configLine false out (extracted (layout.write (d.text config))) =
      some (false, d.set config out) := by
  have hreads := Directive.readsAs h
  unfold configLine
  rw [stripComment_write layout hreads.hash_notMem, hreads.trimmed]
  dsimp only
  rw [if_neg hreads.ne_nil, if_neg (by simp), if_neg (hreads.findSub_ne rfl), hreads.split]
  dsimp only
  rw [directiveLine_set h]
  rfl

theorem configLine_open (block : HostBlock) (out : Config) :
    configLine false out (extracted (block.opening.write block.openText)) =
      some (true, { out with virtualHosts := out.virtualHosts ++ [⟨[], []⟩] }) := by
  have hhash : byteOf '#' ∉ block.openText := by
    simp only [HostBlock.openText, List.mem_append, not_or]
    exact ⟨by decide, block.hash_notMem_arguments, by decide⟩
  have htrim : trim block.openText = block.openText := by
    refine trim_eq_self (by rintro c ⟨⟩; rfl) ?_
    intro c hc
    have hlast : block.openText.getLast? = some (byteOf '>') := by
      rw [HostBlock.openText, ← List.append_assoc]
      exact List.getLast?_concat
    obtain rfl := Option.some.inj (hlast.symm.trans hc)
    rfl
  unfold configLine
  rw [stripComment_write block.opening hhash, htrim]
  dsimp only
  rw [if_neg (by simp [HostBlock.openText, ascii]), if_neg (by simp)]
  exact if_pos (findSub_append _ _)

theorem configLine_close (layout : Layout) (out : Config) :
    configLine true out (extracted (layout.write HostBlock.closeText)) = some (false, out) := by
  have hhash : byteOf '#' ∉ HostBlock.closeText := by decide
  have htrim : trim HostBlock.closeText = HostBlock.closeText := by decide
  have hfound : findSub (ascii "</VirtualHost>") HostBlock.closeText = some 0 := by decide
  unfold configLine
  rw [stripComment_write layout hhash, htrim]
  dsimp only
  rw [if_neg (by decide), if_pos rfl, if_pos hfound]

theorem updateLastHost_append (f : VirtualHost → VirtualHost) (out : Config)
    (hosts : List VirtualHost) (last : VirtualHost) :
    Config.updateLastHost f { out with virtualHosts := hosts ++ [last] } =
      { out with virtualHosts := hosts ++ [f last] } := by
  have hmodify : (hosts ++ [last]).modify hosts.length f = hosts ++ [f last] := by
    induction hosts with
    | nil => rfl
    | cons host hosts ih =>
        rw [List.cons_append, List.length_cons, List.modify_succ_cons, ih]
        rfl
  simp [Config.updateLastHost, hmodify]

theorem configLine_key {text key value : Bytes} (h : ReadsAs text key value) (out : Config)
    (layout : Layout) :
    configLine true out (extracted (layout.write text)) = some (true, hostLine key value out) := by
  unfold configLine
  rw [stripComment_write layout h.hash_notMem, h.trimmed]
  dsimp only
  rw [if_neg h.ne_nil, if_pos rfl, if_neg (h.findSub_ne rfl), h.split]

theorem configLine_host (block : HostBlock) (line : HostLine) (out : Config)
    (hosts : List VirtualHost) (last : VirtualHost) (layout : Layout) :
    configLine true { out with virtualHosts := hosts ++ [last] }
        (extracted (layout.write (line.text block.host))) =
      some (true, { out with virtualHosts := hosts ++ [line.set block.host last] }) := by
  cases line with
  | blank => exact configLine_blank true _ layout
  | DocumentRoot =>
      rw [HostLine.text,
        configLine_key (readsAs_of_key isKey_DocumentRoot block.documentRoot_value),
        hostLine, if_pos rfl, updateLastHost_append]
      rfl
  | ServerName =>
      rw [HostLine.text, configLine_key (readsAs_of_key isKey_ServerName block.serverName_value),
        hostLine, if_neg (by decide), if_pos rfl, updateLastHost_append]
      rfl

/-! ## The whole file -/

theorem configLoop_cons {inVirtualHost inVirtualHost' : Bool} {out out' : Config} {line : Bytes}
    (h : configLine inVirtualHost out line = some (inVirtualHost', out')) (lines : List Bytes) :
    configLoop inVirtualHost out (line :: lines) = configLoop inVirtualHost' out' lines := by
  rw [configLoop, h]

theorem configLoop_hostLines (block : HostBlock) (out : Config) (hosts : List VirtualHost)
    (lines : List (Layout × HostLine)) (last : VirtualHost) (rest : List Bytes) :
    configLoop true { out with virtualHosts := hosts ++ [last] }
        ((lines.map fun line => line.1.write (line.2.text block.host)).map extracted ++ rest) =
      configLoop true
        { out with virtualHosts :=
            hosts ++ [lines.foldl (fun last line => line.2.set block.host last) last] } rest := by
  induction lines generalizing last with
  | nil => rfl
  | cons line lines ih =>
      rw [List.map_cons, List.map_cons, List.cons_append,
        configLoop_cons (configLine_host block line.2 out hosts last line.1), ih]
      rfl

theorem HostBlock.foldl_set (block : HostBlock) (last : VirtualHost) :
    block.lines.foldl (fun last line => line.2.set block.host last) last = block.host := by
  have hroot : (block.lines.foldl (fun last line => line.2.set block.host last) last).documentRoot =
      block.host.documentRoot := by
    refine foldl_sets VirtualHost.documentRoot (fun out line hout => ?_) last ?_
    · cases hline : line.2 <;> simp [HostLine.set, hout]
    · obtain ⟨line, hmem, hline⟩ := block.documentRoot_mem
      exact ⟨line, hmem, fun out => by rw [hline]; rfl⟩
  have hname : (block.lines.foldl (fun last line => line.2.set block.host last) last).serverName =
      block.host.serverName := by
    refine foldl_sets VirtualHost.serverName (fun out line hout => ?_) last ?_
    · cases hline : line.2 <;> simp [HostLine.set, hout]
    · obtain ⟨line, hmem, hline⟩ := block.serverName_mem
      exact ⟨line, hmem, fun out => by rw [hline]; rfl⟩
  exact congrArg₂ VirtualHost.mk hroot hname

theorem configLoop_host (block : HostBlock) (out : Config) (rest : List Bytes) :
    configLoop false out (block.written.map extracted ++ rest) =
      configLoop false { out with virtualHosts := out.virtualHosts ++ [block.host] } rest := by
  have hlines : block.written.map extracted ++ rest =
      extracted (block.opening.write block.openText) ::
        ((block.lines.map fun line => line.1.write (line.2.text block.host)).map extracted ++
          (extracted (block.closing.write HostBlock.closeText) :: rest)) := by
    simp [HostBlock.written]
  rw [hlines, configLoop_cons (configLine_open block out), configLoop_hostLines,
    block.foldl_set, configLoop_cons (configLine_close block.closing _)]

theorem configLoop_section {config : Config} {written : Section}
    (h : ∀ d ∈ written.directive?, d.Writable config) (out : Config) (rest : List Bytes) :
    configLoop false out ((written.written config).map extracted ++ rest) =
      configLoop false (written.set config out) rest := by
  cases written with
  | blank layout => exact configLoop_cons (configLine_blank false out layout) rest
  | directive layout d =>
      exact configLoop_cons (configLine_directive (h d rfl) out layout) rest
  | host block => exact configLoop_host block out rest

theorem configLoop_sections {config : Config} {sections : List Section}
    (h : ∀ written ∈ sections, ∀ d ∈ written.directive?, d.Writable config) (out : Config) :
    configLoop false out ((sections.flatMap (Section.written config)).map extracted) =
      (true, sections.foldl (Section.set config) out) := by
  induction sections generalizing out with
  | nil => rfl
  | cons written sections ih =>
      obtain ⟨hwritten, hsections⟩ := List.forall_mem_cons.1 h
      rw [List.flatMap_cons, List.map_append, configLoop_section hwritten, ih hsections]
      rfl

/-! ## What the sections come to -/

section

variable {config : Config} {sections : List Section}

theorem foldl_mode (out : Config) :
    (sections.foldl (Section.set config) out).mode =
      (((sections.filterMap Section.directive?).filterMap Directive.mode?).getLast?).getD
        out.mode := by
  induction sections generalizing out with
  | nil => rfl
  | cons written sections ih =>
      rw [List.foldl_cons, ih]
      cases written with
      | blank layout => rfl
      | host block => rfl
      | directive layout d =>
          have hlast (mode : Config.Mode) (modes : List Config.Mode) :
              modes.getLast?.getD mode = (mode :: modes).getLast?.getD out.mode := by
            cases modes with
            | nil => rfl
            | cons mode' modes => simp [List.getLast?_cons]
          cases d with
          | nThreads => exact hlast _ _
          | nSelectLoops => exact hlast _ _
          | _ => rfl

theorem foldl_virtualHosts (out : Config) :
    (sections.foldl (Section.set config) out).virtualHosts =
      out.virtualHosts ++ sections.filterMap Section.host? := by
  induction sections generalizing out with
  | nil => exact (List.append_nil _).symm
  | cons written sections ih =>
      rw [List.foldl_cons, ih]
      cases written with
      | blank layout => rfl
      | host block => exact List.append_assoc _ _ _
      | directive layout d => cases d <;> rfl

/-- A directive that is there sets its field, and no section sets it to anything else. -/
theorem foldl_setting (d : Directive)
    (hcovers : (∃ written ∈ sections, written.directive? = some d) ∨
      d.setting config = d.setting {}) :
    d.setting (sections.foldl (Section.set config) {}) = d.setting config := by
  have hkeep (out : Config) (written : Section) (hout : d.setting out = d.setting config) :
      d.setting (written.set config out) = d.setting config := by
    cases written with
    | blank layout => exact hout
    | host block => cases d <;> exact hout
    | directive layout d' => cases d <;> cases d' <;> first | rfl | exact hout
  rcases hcovers with ⟨written, hmem, hd⟩ | hdefault
  · refine foldl_sets d.setting hkeep {} ⟨written, hmem, fun out => ?_⟩
    cases written with
    | blank layout => cases hd
    | host block => cases hd
    | directive layout d' =>
        cases hd
        cases d <;> rfl
  · exact foldl_keeps d.setting hkeep sections hdefault.symm

end

theorem ConfigFile.foldl_set (file : ConfigFile) :
    file.sections.foldl (Section.set file.config) {} = file.config := by
  have hsetting (d : Directive) := foldl_setting d (file.covers d)
  ext1
  · exact Sum.inl.inj (hsetting .Listen)
  · rw [foldl_virtualHosts, file.hosts]
    rfl
  · rw [foldl_mode, ← file.mode]
  · exact Sum.inl.inj (hsetting .nSelectLoops)
  · exact Sum.inl.inj (hsetting .nThreads)
  · exact Sum.inl.inj (hsetting .Timeout)
  · exact Sum.inr.inj (hsetting .LogFile)
  · exact Sum.inr.inj (hsetting .TLSCertFile)
  · exact Sum.inr.inj (hsetting .TLSKeyFile)
  · exact Sum.inl.inj (hsetting .TLSPort)

theorem lf_notMem_write (layout : Layout) {text : Bytes} (htext : LF ∉ text) :
    LF ∉ (layout.write text).1 := by
  have hblank {s : Bytes} (h : ∀ c ∈ s, c = SP ∨ c = TAB) : LF ∉ s := by
    intro hmem
    rcases h _ hmem with heq | heq <;> cases heq
  simp only [Layout.write, List.mem_append, not_or]
  refine ⟨hblank layout.indent_blank, htext, hblank layout.trail_blank, ?_⟩
  cases hcomment : layout.comment with
  | none => exact List.not_mem_nil
  | some comment =>
      exact List.not_mem_cons_of_ne_of_not_mem (by decide)
        (layout.lf_notMem_comment comment hcomment)

theorem HostBlock.lf_notMem_text (block : HostBlock) (line : HostLine) :
    LF ∉ line.text block.host := by
  cases line with
  | blank => exact List.not_mem_nil
  | DocumentRoot => exact (readsAs_of_key isKey_DocumentRoot block.documentRoot_value).lf_notMem
  | ServerName => exact (readsAs_of_key isKey_ServerName block.serverName_value).lf_notMem

theorem lf_notMem_written {config : Config} {written : Section}
    (h : ∀ d ∈ written.directive?, d.Writable config) :
    ∀ line ∈ written.written config, LF ∉ line.1 := by
  intro line hline
  cases written with
  | blank layout =>
      obtain rfl := List.mem_singleton.1 hline
      exact lf_notMem_write layout List.not_mem_nil
  | directive layout d =>
      obtain rfl := List.mem_singleton.1 hline
      exact lf_notMem_write layout (Directive.readsAs (h d rfl)).lf_notMem
  | host block =>
      rcases List.mem_append.1 hline with hline | hline
      · rcases List.mem_cons.1 hline with rfl | hline
        · refine lf_notMem_write block.opening ?_
          simp only [HostBlock.openText, List.mem_append, not_or]
          exact ⟨by decide, block.lf_notMem_arguments, by decide⟩
        · obtain ⟨⟨layout, hostLine⟩, -, rfl⟩ := List.mem_map.1 hline
          exact lf_notMem_write layout (block.lf_notMem_text hostLine)
      · obtain rfl := List.mem_singleton.1 hline
        exact lf_notMem_write block.closing (by decide)

/-- Whatever configuration is written, and whatever its layout is, it is read back. -/
theorem loadConfig_toBytes (file : ConfigFile) (fs : FileSystem) (path : Bytes)
    (h : fs.readFile path = some file.toBytes) :
    loadConfig fs path {} = (true, file.config) := by
  unfold loadConfig
  rw [h]
  dsimp only
  rw [ConfigFile.toBytes, getLines_writeLines]
  · exact (configLoop_sections file.writable {}).trans (by rw [file.foldl_set])
  · intro line hline
    obtain ⟨written, hmem, hline⟩ := List.mem_flatMap.1 hline
    exact lf_notMem_written (file.writable written hmem) line hline

/-- A file in which a block stands between the directives, and some lines are indented. -/
def indentedConfigFile : ConfigFile :=
  let plain : Layout := ⟨[], [], none, .lf, by simp, by simp, by simp⟩
  let noted : Layout := ⟨[TAB], [SP], some (ascii " note"), .crlf,
    forall_mem_of_all (by decide), forall_mem_of_all (by decide), by decide⟩
  let host : VirtualHost := ⟨ascii "/srv/my site", ascii "example.org"⟩
  let block : HostBlock :=
    { host
      opening := plain
      arguments := ascii " *:80"
      lines := [(noted, .ServerName), (noted, .blank), (noted, .DocumentRoot)]
      closing := noted
      documentRoot_value := ⟨by decide, by decide, by decide, by decide, by decide⟩
      serverName_value := ⟨by decide, by decide, by decide, by decide, by decide⟩
      hash_notMem_arguments := by decide
      lf_notMem_arguments := by decide
      documentRoot_mem := by simp
      serverName_mem := by simp }
  { config := { listenPort := 80, virtualHosts := [host], mode := .Select, nSelectLoops := 2 }
    sections := [.blank noted, .directive plain .Listen, .host block, .directive noted .nThreads,
      .directive noted .nSelectLoops]
    writable := by
      simp [Section.directive?, Directive.Writable, Directive.setting]
    covers := by
      intro d
      cases d <;> simp [Section.directive?, Directive.setting]
    mode := rfl
    hosts := rfl }

theorem loadConfig_toBytes_indented :
    loadConfig (.flat [(ascii "httpd.conf", indentedConfigFile.toBytes)]) (ascii "/httpd.conf") {} =
      (true, indentedConfigFile.config) :=
  loadConfig_toBytes indentedConfigFile _ _ (by rfl)

end CppHttpd
