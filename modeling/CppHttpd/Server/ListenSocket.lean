import CppHttpd.Config.ConfigFile
import CppHttpd.Config.ConfigText

/-!
# The sockets that the server listens on

A port is read as an `int` and bound as a `uint16_t`.  What is written in the
configuration is the port that is bound if it has sixteen bits.
-/

namespace CppHttpd

open CppHttpd.Foundation

/-! ## `create_listen_socket` -/

/-- The two bytes of a port in network order. -/
structure SinPort where
  high : Byte
  low : Byte

def htons (n : UInt16) : SinPort := ⟨(n >>> 8).toUInt8, n.toUInt8⟩

def SinPort.number (port : SinPort) : Nat := port.high.toNat * 256 + port.low.toNat

/-- Which of the system calls succeed. -/
structure SocketResults where
  socket : Bool
  setsockopt : Bool
  bind : Bool
  listen : Bool

/-- The port that the socket is bound to; the `-1` of the source is `none`. -/
def createListenSocket (port : Int) (results : SocketResults) : Option SinPort :=
  if !results.socket then none
  else if !results.setsockopt then none
  else
    let sinPort := htons (UInt16.ofInt port)
    if !results.bind then none
    else if !results.listen then none
    else some sinPort

/-! ## `HttpServer::run` -/

structure RunResults where
  listen : SocketResults
  pipe : Bool
  sslInit : Bool
  tls : SocketResults

def HttpServer.run (config : Config) (results : RunResults) : List (Directive × SinPort) :=
  match createListenSocket config.listenPort results.listen with
  | none => []
  | some port =>
      (.Listen, port) ::
        if results.pipe ∧ config.tlsCertFile ≠ [] ∧ config.tlsKeyFile ≠ [] ∧ results.sslInit then
          match createListenSocket config.tlsPort results.tls with
          | none => []
          | some port => [(.TLSPort, port)]
        else []

theorem number_htons (n : UInt16) : (htons n).number = n.toNat := by
  have hn := n.toNat_lt
  simp only [SinPort.number, htons, UInt16.toNat_toUInt8, UInt16.toNat_shiftRight,
    UInt16.reduceToNat, Nat.shiftRight_eq_div_pow, Nat.reduceMod, Nat.reducePow]
  omega

theorem toNat_ofInt (n : Int) : ((UInt16.ofInt n).toNat : Int) = n % 2 ^ 16 := by
  rw [UInt16.ofInt, UInt16.toNat_ofNat']
  omega

/-- What is bound is the number modulo `2 ^ 16`. -/
theorem createListenSocket_number {port : Int} {results : SocketResults} {sinPort : SinPort}
    (h : createListenSocket port results = some sinPort) :
    (sinPort.number : Int) = port % 2 ^ 16 := by
  unfold createListenSocket at h
  dsimp only at h
  split_ifs at h
  obtain rfl := Option.some.inj h
  rw [number_htons]
  exact toNat_ofInt port

def SocketResults.good : SocketResults := ⟨true, true, true, true⟩

theorem createListenSocket_good (port : Int) :
    createListenSocket port .good = some (htons (UInt16.ofInt port)) := rfl

def RunResults.good : RunResults := ⟨.good, true, true, .good⟩

/-- The member that a port comes from. -/
def listenPortOf (config : Config) : Directive → Int
  | .TLSPort => config.tlsPort
  | _ => config.listenPort

def TlsOn (config : Config) : Prop := config.tlsCertFile ≠ [] ∧ config.tlsKeyFile ≠ []

theorem run_listens {config : Config} {results : RunResults} {d : Directive} {port : SinPort}
    (h : (d, port) ∈ HttpServer.run config results) :
    (d = .Listen ∨ d = .TLSPort ∧ TlsOn config) ∧
      (port.number : Int) = listenPortOf config d % 2 ^ 16 := by
  unfold HttpServer.run at h
  cases hlisten : createListenSocket config.listenPort results.listen with
  | none =>
      rw [hlisten] at h
      cases h
  | some first =>
      rw [hlisten] at h
      rcases List.mem_cons.1 h with heq | hmem
      · obtain ⟨rfl, rfl⟩ := Prod.mk.inj heq
        exact ⟨.inl rfl, createListenSocket_number hlisten⟩
      · split_ifs at hmem with hon
        · cases htls : createListenSocket config.tlsPort results.tls with
          | none =>
              rw [htls] at hmem
              cases hmem
          | some second =>
              rw [htls] at hmem
              obtain ⟨rfl, rfl⟩ := Prod.mk.inj (List.mem_singleton.1 hmem)
              exact ⟨.inr ⟨rfl, hon.2.1, hon.2.2.1⟩, createListenSocket_number htls⟩
        · cases hmem

theorem run_good {config : Config} {d : Directive}
    (h : d = .Listen ∨ d = .TLSPort ∧ TlsOn config) :
    ∃ port, (d, port) ∈ HttpServer.run config .good := by
  rcases h with rfl | ⟨rfl, hcert, hkey⟩
  · exact ⟨htons (UInt16.ofInt config.listenPort), List.mem_cons_self⟩
  · refine ⟨htons (UInt16.ofInt config.tlsPort), List.mem_cons_of_mem _ ?_⟩
    simp [RunResults.good, createListenSocket_good, hcert, hkey]

/-! ## Numbers in the configuration -/

/-- The text is a numeral and nothing else. -/
def WrittenNumber (text : Bytes) (n : Int) : Prop :=
  ∃ m : Numeral, m.toBytes = text ∧ m.rest = [] ∧ m.signedValue = n

theorem WrittenNumber.unique {text : Bytes} {n n' : Int} (h : WrittenNumber text n)
    (h' : WrittenNumber text n') : n = n' := by
  obtain ⟨m, rfl, -, rfl⟩ := h
  obtain ⟨m', hm', -, rfl⟩ := h'
  have hread := congrArg readDigits hm'
  rw [Numeral.readDigits_toBytes, Numeral.readDigits_toBytes] at hread
  obtain ⟨hsign, hdigits⟩ := Prod.mk.inj hread
  simp only [decide_eq_decide] at hsign
  simp only [Numeral.signedValue, hdigits, hsign]

theorem numeralEnd_toBytes (m : Numeral) :
    numeralEnd m.toBytes + m.rest.length = m.toBytes.length := by
  obtain ⟨d, digits, hdigits⟩ := List.exists_cons_of_ne_nil m.digits_ne_nil
  have hd : isDigit d = true := m.digits_digit d (by simp [hdigits])
  have hblanks : ∀ c t, isSpace c = false →
      (m.blanks ++ c :: t).takeWhile isSpace = m.blanks := by
    intro c t hc
    rw [List.takeWhile_append_of_pos m.blanks_space, List.takeWhile_cons_of_neg (by simp [hc]),
      List.append_nil]
  unfold numeralEnd
  rw [Numeral.readDigits_toBytes]
  unfold Numeral.toBytes
  cases hsign : m.sign with
  | absent =>
      have hne : ¬ (some d = some 43 ∨ some d = some 45) := by
        rintro (⟨⟨⟩⟩ | ⟨⟨⟩⟩) <;> cases hd
      simp only [Sign.toBytes, List.nil_append, hdigits, List.cons_append]
      rw [hblanks d _ (Numeral.isSpace_of_isDigit hd)]
      simp only [List.getElem?_append_right (Nat.le_refl _), Nat.sub_self,
        List.getElem?_cons_zero, if_neg hne, List.length_append, List.length_cons]
      omega
  | plus =>
      have htake := hblanks 43 (m.digits ++ m.rest) (by decide)
      simp only [Sign.toBytes, List.cons_append, List.nil_append, htake]
      simp
      omega
  | minus =>
      have htake := hblanks 45 (m.digits ++ m.rest) (by decide)
      simp only [Sign.toBytes, List.cons_append, List.nil_append, htake]
      simp
      omega

theorem stoi_toBytes {m : Numeral} {n : Int} {pos : Nat} (h : stoi m.toBytes = .ok (n, pos)) :
    m.signedValue = n ∧ numeralEnd m.toBytes = pos := by
  unfold stoi at h
  rw [Numeral.readDigits_toBytes] at h
  dsimp only at h
  split_ifs at h with hempty hsign hrange
  · obtain ⟨rfl, rfl⟩ := Prod.mk.inj (Except.ok.inj h)
    simp only [decide_eq_true_eq] at hsign
    exact ⟨if_pos hsign, rfl⟩
  · obtain ⟨rfl, rfl⟩ := Prod.mk.inj (Except.ok.inj h)
    simp only [decide_eq_true_eq] at hsign
    exact ⟨if_neg hsign, rfl⟩

theorem parsePositiveInt_eq_some {value : Bytes} {n : Int} (h : parsePositiveInt value = some n) :
    0 < n ∧ WrittenNumber value n := by
  unfold parsePositiveInt at h
  split_ifs at h
  cases hstoi : stoi value with
  | error =>
      rw [hstoi] at h
      cases h
  | ok read =>
      rw [hstoi] at h
      dsimp only at h
      split_ifs at h with hbad
      obtain rfl := Option.some.inj h
      have hne : (readDigits value).2 ≠ [] := by
        intro hempty
        simp [stoi, hempty] at hstoi
      obtain ⟨m, rfl⟩ := Numeral.exists_of_readDigits hne
      obtain ⟨hvalue, hend⟩ := stoi_toBytes hstoi
      have hlength := numeralEnd_toBytes m
      rw [not_or, not_ne_iff] at hbad
      refine ⟨by omega, m, rfl, List.eq_nil_of_length_eq_zero ?_, hvalue⟩
      omega

/-! ## Directives of the configuration -/

/-- The value that the configuration gives the directive, as it is written. -/
def writtenValue (content : Bytes) (d : Directive) : Option Bytes :=
  lastSetting d.key (outsideSettings false (getLines LF content))

/-- The value of the directive is read as what the configuration has for it. -/
def Directive.Reads (value : Bytes) (config : Config) (d : Directive) : Prop :=
  match d.setting config with
  | .inl n => parsePositiveInt value = some n
  | .inr text => value = text

/-- A line with a directive's word takes over one setting, and any other line none. -/
theorem directiveLine_cases {word value : Bytes} {out out' : Config}
    (h : directiveLine word value out = some out') :
    (∃ d config, word = Directive.key d ∧ d.Reads value config ∧ out' = d.set config out) ∨
      (∀ d, word ≠ Directive.key d) ∧ out' = out := by
  have hnumber : ∀ (d : Directive) (f : Int → Config), word = d.key →
      (∀ n, d.setting (f n) = .inl n ∧ f n = d.set (f n) out) →
      (parsePositiveInt value).map f = some out' →
      ∃ d config, word = Directive.key d ∧ d.Reads value config ∧ out' = d.set config out := by
    intro d f hword hf hsome
    obtain ⟨n, hn, rfl⟩ := Option.map_eq_some_iff.1 hsome
    refine ⟨d, f n, hword, ?_, (hf n).2⟩
    rw [Directive.Reads, (hf n).1]
    exact hn
  unfold directiveLine at h
  split_ifs at h with h1 h2 h3 h4 h5 h6 h7 h8
  · exact .inl (hnumber .Listen _ h1 (fun _ => ⟨rfl, rfl⟩) h)
  · exact .inl (hnumber .nThreads _ h2 (fun _ => ⟨rfl, rfl⟩) h)
  · exact .inl (hnumber .nSelectLoops _ h3 (fun _ => ⟨rfl, rfl⟩) h)
  · exact .inl (hnumber .Timeout _ h4 (fun _ => ⟨rfl, rfl⟩) h)
  · obtain rfl := Option.some.inj h
    exact .inl ⟨.LogFile, { out with logFile := value }, h5, rfl, rfl⟩
  · obtain rfl := Option.some.inj h
    exact .inl ⟨.TLSCertFile, { out with tlsCertFile := value }, h6, rfl, rfl⟩
  · obtain rfl := Option.some.inj h
    exact .inl ⟨.TLSKeyFile, { out with tlsKeyFile := value }, h7, rfl, rfl⟩
  · exact .inl (hnumber .TLSPort _ h8 (fun _ => ⟨rfl, rfl⟩) h)
  · obtain rfl := Option.some.inj h
    refine .inr ⟨fun d => ?_, rfl⟩
    cases d with
    | Listen => exact h1
    | nThreads => exact h2
    | nSelectLoops => exact h3
    | Timeout => exact h4
    | LogFile => exact h5
    | TLSCertFile => exact h6
    | TLSKeyFile => exact h7
    | TLSPort => exact h8

theorem key_inj {d d' : Directive} (h : d.key = d'.key) : d = d' := by
  revert h
  cases d <;> cases d' <;> decide

section

variable {α : Type} {get : Config → α} {read : Bytes → Option α} {d₀ : Directive}

/-- A member that is one of the settings is set by the directive of the setting. -/
theorem SetBy.of_directive
    (hset : ∀ config out d, get (Directive.set config out d) =
      if d = d₀ then get config else get out)
    (hread : ∀ value config, d₀.Reads value config → read value = some (get config))
    (hhosts : ∀ (out : Config) (virtualHosts : List VirtualHost),
      get { out with virtualHosts := virtualHosts } = get out) :
    SetBy get d₀.key read where
  line {word value out out'} h := by
    rcases directiveLine_cases h with ⟨d, config, rfl, hreads, rfl⟩ | ⟨hword, rfl⟩
    · rw [hset]
      by_cases hd : d = d₀
      · subst hd
        rw [if_pos rfl, if_pos rfl]
        exact hread value config hreads
      · rw [if_neg fun hkey => hd (key_inj hkey), if_neg hd]
    · rw [if_neg (hword d₀)]
  hosts := hhosts

end

theorem setBy_listenPort : SetBy Config.listenPort (Directive.key .Listen) parsePositiveInt := by
  apply SetBy.of_directive
  · intro config out d
    cases d <;> rfl
  · exact fun _ _ h => h
  · exact fun _ _ => rfl

theorem setBy_tlsPort : SetBy Config.tlsPort (Directive.key .TLSPort) parsePositiveInt := by
  apply SetBy.of_directive
  · intro config out d
    cases d <;> rfl
  · exact fun _ _ h => h
  · exact fun _ _ => rfl

theorem setBy_tlsCertFile : SetBy Config.tlsCertFile (Directive.key .TLSCertFile) some := by
  apply SetBy.of_directive
  · intro config out d
    cases d <;> rfl
  · exact fun _ _ h => congrArg some h
  · exact fun _ _ => rfl

theorem setBy_tlsKeyFile : SetBy Config.tlsKeyFile (Directive.key .TLSKeyFile) some := by
  apply SetBy.of_directive
  · intro config out d
    cases d <;> rfl
  · exact fun _ _ h => congrArg some h
  · exact fun _ _ => rfl

/-- Both files of a TLS listener are named. -/
def TlsWritten (content : Bytes) : Prop :=
  (writtenValue content .TLSCertFile).getD [] ≠ [] ∧
    (writtenValue content .TLSKeyFile).getD [] ≠ []

/-- The ports that the server is told to listen on. -/
def Listens (content : Bytes) (d : Directive) : Prop :=
  d = .Listen ∨ d = .TLSPort ∧ TlsWritten content

/-- Every socket has the port that is written for it. -/
def BindsAsWritten (content : Bytes) (config : Config) : Prop :=
  ∀ results, ∀ listener ∈ HttpServer.run config results,
    ∀ value ∈ writtenValue content listener.1,
      ∃ n, WrittenNumber value n ∧ (listener.2.number : Int) = n

/-- The numbers that are written for them have sixteen bits. -/
def PortsFit (content : Bytes) : Prop :=
  ∀ d, Listens content d → ∀ value ∈ writtenValue content d, ∀ n, WrittenNumber value n → n ≤ 65535

/-! ## Ports that are bound as they are written -/

section

variable {content : Bytes} {config : Config}
  (hload : configLoop false {} (getLines LF content) = (true, config))

include hload

theorem parsePositiveInt_written {d : Directive} (hd : d = .Listen ∨ d = .TLSPort) {value : Bytes}
    (hvalue : writtenValue content d = some value) :
    parsePositiveInt value = some (listenPortOf config d) := by
  rcases hd with rfl | rfl
  · have hstored := setBy_listenPort.stored _ hload
    rw [← writtenValue, hvalue] at hstored
    exact hstored
  · have hstored := setBy_tlsPort.stored _ hload
    rw [← writtenValue, hvalue] at hstored
    exact hstored

theorem tlsOn_iff : TlsOn config ↔ TlsWritten content := by
  have hget : ∀ {get : Config → Bytes} {value : Option Bytes}, get {} = [] →
      StoredAs get some {} config value → get config = value.getD [] := by
    intro get value hempty hstored
    cases value with
    | none => exact Eq.trans hstored hempty
    | some value => exact (Option.some.inj hstored).symm
  have hcert := hget rfl (setBy_tlsCertFile.stored _ hload)
  have hkey := hget rfl (setBy_tlsKeyFile.stored _ hload)
  rw [TlsOn, hcert, hkey]
  rfl

theorem portsFit_of_binds (hbinds : BindsAsWritten content config) : PortsFit content := by
  intro d hd value hvalue n hn
  have hlisten : d = .Listen ∨ d = .TLSPort ∧ TlsOn config := by
    rwa [tlsOn_iff hload]
  obtain ⟨port, hport⟩ := run_good hlisten
  obtain ⟨n', hn', hbound⟩ := hbinds .good _ hport value hvalue
  have hmod := (run_listens hport).2
  rw [hn.unique hn', ← hbound, hmod]
  omega

theorem binds_of_portsFit (hfit : PortsFit content) : BindsAsWritten content config := by
  intro results listener hmem value hvalue
  obtain ⟨hd, hnumber⟩ := run_listens hmem
  have hlistens : Listens content listener.1 := by
    rwa [Listens, ← tlsOn_iff hload]
  have hparse := parsePositiveInt_written hload (hd.imp_right And.left) hvalue
  obtain ⟨hpos, hwritten⟩ := parsePositiveInt_eq_some hparse
  have hmax := hfit _ hlistens value hvalue _ hwritten
  refine ⟨_, hwritten, ?_⟩
  rw [hnumber]
  omega

end

/--
The sockets of the server have the ports that an accepted configuration gives
them exactly if the last numbers for `Listen`, and where there is TLS for
`TLSPort`, are at most 65535.
-/
theorem binds_iff (fs : FileSystem) (path : Bytes) (content : Bytes) (config : Config)
    (hread : fs.readFile path = some content) (hload : loadConfig fs path {} = (true, config)) :
    BindsAsWritten content config ↔ PortsFit content := by
  rw [loadConfig, hread] at hload
  exact ⟨portsFit_of_binds hload, binds_of_portsFit hload⟩

/-- A port that is written twice; the last number is the one that counts. -/
theorem binds_iff_twice :
    let content := ascii "Listen 99999\nListen +8081 # plain\nTLSPort 70000\n"
    let fs := FileSystem.flat [(ascii "httpd.conf", content)]
    let config := (loadConfig fs (ascii "/httpd.conf") {}).2
    config.listenPort = 8081 ∧ (BindsAsWritten content config ↔ PortsFit content) := by
  intro content fs config
  exact ⟨rfl, binds_iff fs (ascii "/httpd.conf") content config rfl rfl⟩

/-- A port with more than sixteen bits: 4464 is bound in its place. -/
theorem not_bindsAsWritten :
    ¬ ∀ (fs : FileSystem) (path content : Bytes) (config : Config),
      fs.readFile path = some content → loadConfig fs path {} = (true, config) →
        BindsAsWritten content config := by
  intro hall
  let content := ascii "Listen 70000\n"
  let fs := FileSystem.flat [(ascii "httpd.conf", content)]
  have hload : loadConfig fs (ascii "/httpd.conf") {} = (true, { listenPort := 70000 }) := rfl
  have hbinds := hall fs (ascii "/httpd.conf") content _ rfl hload
  have hfit : PortsFit content := portsFit_of_binds rfl hbinds
  have hparse : parsePositiveInt (ascii "70000") = some 70000 := by decide
  have hwritten := (parsePositiveInt_eq_some hparse).2
  have hmax := hfit .Listen (.inl rfl) (ascii "70000") (by decide) _ hwritten
  exact absurd hmax (by decide)

end CppHttpd
