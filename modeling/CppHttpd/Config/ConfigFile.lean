import CppHttpd.Config.Config
import CppHttpd.Foundation.Lines
import CppHttpd.Foundation.Numerals

/-!
# Configuration files

A configuration is written as directives and blocks, in any order that keeps the
virtual hosts apart and ends with the mode that is meant, and with any layout
around them.  `load_config` reads it back.
-/

namespace CppHttpd

open CppHttpd.Foundation

/-! ## Layout -/

/-- What may stand around the text of a line. -/
structure Layout where
  indent : Bytes
  trail : Bytes
  comment : Option Bytes
  lineEnd : LineTerminator
  indent_blank : ∀ c ∈ indent, c = SP ∨ c = TAB
  trail_blank : ∀ c ∈ trail, c = SP ∨ c = TAB
  lf_notMem_comment : ∀ text ∈ comment, LF ∉ text

namespace Layout

def write (layout : Layout) (text : Bytes) : Bytes × LineTerminator :=
  (layout.indent ++ (text ++ (layout.trail ++ layout.comment.elim [] (byteOf '#' :: ·))),
    layout.lineEnd)

end Layout

/-- The line as `std::getline` extracts it. -/
def extracted (line : Bytes × LineTerminator) : Bytes := line.1 ++ line.2.leftover

structure IsValue (s : Bytes) : Prop where
  trimmed : trim s = s
  ne_nil : s ≠ []
  hash_notMem : byteOf '#' ∉ s
  cr_notMem : CR ∉ s
  lf_notMem : LF ∉ s

/-! ## Directives -/

inductive Directive where
  | Listen
  | nThreads
  | nSelectLoops
  | Timeout
  | LogFile
  | TLSCertFile
  | TLSKeyFile
  | TLSPort
  deriving DecidableEq, Repr

namespace Directive

def key : Directive → Bytes
  | .Listen => ascii "Listen"
  | .nThreads => ascii "nThreads"
  | .nSelectLoops => ascii "nSelectLoops"
  | .Timeout => ascii "Timeout"
  | .LogFile => ascii "LogFile"
  | .TLSCertFile => ascii "TLSCertFile"
  | .TLSKeyFile => ascii "TLSKeyFile"
  | .TLSPort => ascii "TLSPort"

/-- The number or the text that the configuration gives the directive. -/
def setting (config : Config) : Directive → Int ⊕ Bytes
  | .Listen => .inl config.listenPort
  | .nThreads => .inl config.nThreads
  | .nSelectLoops => .inl config.nSelectLoops
  | .Timeout => .inl config.timeoutSeconds
  | .LogFile => .inr config.logFile
  | .TLSCertFile => .inr config.tlsCertFile
  | .TLSKeyFile => .inr config.tlsKeyFile
  | .TLSPort => .inl config.tlsPort

/-- A positive `int`, or a value. -/
def Writable (config : Config) (d : Directive) : Prop :=
  match d.setting config with
  | .inl n => 0 < n ∧ n < 2 ^ 31
  | .inr s => IsValue s

def value (config : Config) (d : Directive) : Bytes :=
  match d.setting config with
  | .inl n => toDecimal n.toNat
  | .inr s => s

def text (config : Config) (d : Directive) : Bytes := d.key ++ SP :: d.value config

def mode? : Directive → Option Config.Mode
  | .nThreads => some .Threads
  | .nSelectLoops => some .Select
  | _ => none

/-- The directive is taken over from the configuration. -/
def set (config out : Config) : Directive → Config
  | .Listen => { out with listenPort := config.listenPort }
  | .nThreads => { out with mode := .Threads, nThreads := config.nThreads }
  | .nSelectLoops => { out with mode := .Select, nSelectLoops := config.nSelectLoops }
  | .Timeout => { out with timeoutSeconds := config.timeoutSeconds }
  | .LogFile => { out with logFile := config.logFile }
  | .TLSCertFile => { out with tlsCertFile := config.tlsCertFile }
  | .TLSKeyFile => { out with tlsKeyFile := config.tlsKeyFile }
  | .TLSPort => { out with tlsPort := config.tlsPort }

end Directive

/-! ## Blocks -/

inductive HostLine where
  | blank
  | DocumentRoot
  | ServerName
  deriving DecidableEq, Repr

namespace HostLine

def text (host : VirtualHost) : HostLine → Bytes
  | .blank => []
  | .DocumentRoot => ascii "DocumentRoot" ++ SP :: host.documentRoot
  | .ServerName => ascii "ServerName" ++ SP :: host.serverName

def set (host out : VirtualHost) : HostLine → VirtualHost
  | .blank => out
  | .DocumentRoot => { out with documentRoot := host.documentRoot }
  | .ServerName => { out with serverName := host.serverName }

end HostLine

/-- A virtual host as it is written; what stands behind the word that opens the block is free. -/
structure HostBlock where
  host : VirtualHost
  opening : Layout
  arguments : Bytes
  lines : List (Layout × HostLine)
  closing : Layout
  documentRoot_value : IsValue host.documentRoot
  serverName_value : IsValue host.serverName
  hash_notMem_arguments : byteOf '#' ∉ arguments
  lf_notMem_arguments : LF ∉ arguments
  documentRoot_mem : ∃ line ∈ lines, line.2 = .DocumentRoot
  serverName_mem : ∃ line ∈ lines, line.2 = .ServerName

namespace HostBlock

def openText (block : HostBlock) : Bytes := ascii "<VirtualHost" ++ (block.arguments ++ ascii ">")

def closeText : Bytes := ascii "</VirtualHost>"

def written (block : HostBlock) : List (Bytes × LineTerminator) :=
  block.opening.write block.openText ::
    (block.lines.map fun line => line.1.write (line.2.text block.host)) ++
      [block.closing.write closeText]

end HostBlock

/-! ## Files -/

inductive Section where
  | blank (layout : Layout)
  | directive (layout : Layout) (d : Directive)
  | host (block : HostBlock)

namespace Section

def written (config : Config) : Section → List (Bytes × LineTerminator)
  | .blank layout => [layout.write []]
  | .directive layout d => [layout.write (d.text config)]
  | .host block => block.written

def directive? : Section → Option Directive
  | .directive _ d => some d
  | _ => none

def host? : Section → Option VirtualHost
  | .host block => some block.host
  | _ => none

def set (config out : Config) : Section → Config
  | .blank _ => out
  | .directive _ d => d.set config out
  | .host block => { out with virtualHosts := out.virtualHosts ++ [block.host] }

end Section

/--
A configuration as it is written.  A directive may be left out where the
configuration has its default.
-/
structure ConfigFile where
  config : Config
  sections : List Section
  writable : ∀ written ∈ sections, ∀ d ∈ written.directive?, d.Writable config
  covers : ∀ d : Directive, (∃ written ∈ sections, written.directive? = some d) ∨
    d.setting config = d.setting {}
  mode : (((sections.filterMap Section.directive?).filterMap Directive.mode?).getLast?).getD
    .Threads = config.mode
  hosts : sections.filterMap Section.host? = config.virtualHosts

def ConfigFile.toBytes (file : ConfigFile) : Bytes :=
  writeLines (file.sections.flatMap (Section.written file.config))

/-! ## Reading a line -/

section

variable {layout : Layout} {text : Bytes}

theorem contains_of_blank {c : Byte} (h : c = SP ∨ c = TAB) :
    (ascii " \t\r\n").contains c = true := by
  rcases h with rfl | rfl <;> decide

theorem hash_notMem_blanks {s : Bytes} (h : ∀ c ∈ s, c = SP ∨ c = TAB) : byteOf '#' ∉ s := by
  intro hmem
  rcases h _ hmem with heq | heq <;> cases heq

theorem stripComment_write (layout : Layout) (htext : byteOf '#' ∉ text) :
    stripComment (extracted (layout.write text)) = trim text := by
  have hindent := hash_notMem_blanks layout.indent_blank
  have htrail := hash_notMem_blanks layout.trail_blank
  have hpad {s : Bytes} (h : ∀ c ∈ s, c = SP ∨ c = TAB) :
      ∀ c ∈ s, (ascii " \t\r\n").contains c = true := fun c hc => contains_of_blank (h c hc)
  have hleftover : ∀ c ∈ layout.lineEnd.leftover, (ascii " \t\r\n").contains c = true := by
    apply forall_mem_of_all
    cases layout.lineEnd <;> decide
  have hline : byteOf '#' ∉ layout.indent ++ (text ++ layout.trail) := by
    simp only [List.mem_append, not_or]
    exact ⟨hindent, htext, htrail⟩
  unfold stripComment extracted Layout.write
  cases hcomment : layout.comment with
  | none =>
      have hend : byteOf '#' ∉ layout.lineEnd.leftover := by
        cases layout.lineEnd <;> decide
      have hall : layout.indent ++ (text ++ (layout.trail ++ [])) ++ layout.lineEnd.leftover =
          layout.indent ++ (text ++ (layout.trail ++ layout.lineEnd.leftover)) := by simp
      simp only [Option.elim_none, hall]
      rw [find_none]
      · refine trim_pad (hpad layout.indent_blank) (fun c hc => ?_) text
        exact (List.mem_append.1 hc).elim (hpad layout.trail_blank c) (hleftover c)
      · simp only [List.mem_append, not_or]
        exact ⟨hindent, htext, htrail, hend⟩
  | some comment =>
      have hall : layout.indent ++ (text ++ (layout.trail ++ byteOf '#' :: comment)) ++
          layout.lineEnd.leftover =
            layout.indent ++ (text ++ layout.trail) ++
              byteOf '#' :: (comment ++ layout.lineEnd.leftover) := by simp
      simp only [Option.elim_some, hall, find_append_cons hline, substr_eq, List.drop_zero,
        List.take_left]
      exact trim_pad (hpad layout.indent_blank) (hpad layout.trail_blank) text

end

/-! ## Keys and values -/

/-- A key, as `split_first_word` finds it: none of its bytes is a blank or begins a comment. -/
structure IsKey (key : Bytes) : Prop where
  ne_nil : key ≠ []
  plain : ∀ c ∈ key, (ascii " \t\r\n#<").contains c = false

/-- What the loop asks of the text of a line that holds a key and a value. -/
structure ReadsAs (text key value : Bytes) : Prop where
  trimmed : trim text = text
  ne_nil : text ≠ []
  hash_notMem : byteOf '#' ∉ text
  lf_notMem : LF ∉ text
  split : splitFirstWord text = some (key, value)
  no_bracket : text.head? ≠ some (byteOf '<')

theorem contains_space_of_key {key : Bytes} (hkey : IsKey key) {c : Byte} (hc : c ∈ key) :
    (ascii " \t\r\n").contains c = false := by
  have hsub : ∀ c ∈ ascii " \t\r\n", (ascii " \t\r\n#<").contains c = true :=
    forall_mem_of_all (by decide)
  apply contains_eq_false hsub
  rw [hkey.plain c hc]
  exact Bool.false_ne_true

theorem IsKey.trim_eq {key : Bytes} (hkey : IsKey key) : trim key = key :=
  trim_of_notContains fun _ hc => contains_space_of_key hkey hc

theorem findFirstOf_key {key : Bytes} (hkey : IsKey key) (rest : Bytes) :
    findFirstOf (key ++ SP :: rest) (ascii " \t") = some key.length := by
  have hnone : key.findIdx? (ascii " \t").contains = none := by
    rw [List.findIdx?_eq_none_iff]
    intro c hc
    have hsub : ∀ c ∈ ascii " \t", (ascii " \t\r\n").contains c = true :=
      forall_mem_of_all (by decide)
    apply contains_eq_false hsub
    rw [contains_space_of_key hkey hc]
    exact Bool.false_ne_true
  rw [findFirstOf, List.findIdx?_append, hnone, Option.none_or,
    List.findIdx?_cons, if_pos (by decide)]
  simp

theorem readsAs_of_key {key value : Bytes} (hkey : IsKey key) (hvalue : IsValue value) :
    ReadsAs (key ++ SP :: value) key value where
  trimmed := by
    apply trim_eq_self
    · intro c hc
      obtain ⟨d, rest, hrest⟩ := List.exists_cons_of_ne_nil hkey.ne_nil
      rw [hrest] at hc
      cases hc
      exact contains_space_of_key hkey (by simp [hrest])
    · intro c hc
      have hlast : (key ++ SP :: value).getLast? = value.getLast? := by
        rw [← List.singleton_append, ← List.append_assoc,
          List.getLast?_append_of_ne_nil _ hvalue.ne_nil]
      exact contains_getLast hvalue.trimmed (hlast.symm.trans hc)
  ne_nil := by simp
  hash_notMem := by
    simp only [List.mem_append, List.mem_cons, not_or]
    refine ⟨fun hmem => ?_, by decide, hvalue.hash_notMem⟩
    have hplain := hkey.plain _ hmem
    revert hplain
    decide
  lf_notMem := by
    simp only [List.mem_append, List.mem_cons, not_or]
    refine ⟨fun hmem => ?_, by decide, hvalue.lf_notMem⟩
    have hplain := hkey.plain _ hmem
    revert hplain
    decide
  split := by
    unfold splitFirstWord
    split
    · rename_i hnone
      rw [findFirstOf_key hkey] at hnone
      cases hnone
    · rename_i space hsome
      rw [findFirstOf_key hkey] at hsome
      obtain rfl := Option.some.inj hsome
      rw [substr_eq, substrFrom_eq, List.drop_zero, List.take_left, ← List.drop_drop,
        List.drop_left, hkey.trim_eq]
      exact congrArg (fun value => some (key, value)) hvalue.trimmed
  no_bracket := by
    obtain ⟨d, rest, hrest⟩ := List.exists_cons_of_ne_nil hkey.ne_nil
    rw [hrest]
    rintro ⟨⟩
    have hplain := hkey.plain (byteOf '<') (by simp [hrest])
    revert hplain
    decide

/-- Neither end of a block begins the line. -/
theorem ReadsAs.findSub_ne {text key value : Bytes} (h : ReadsAs text key value)
    {pattern : Bytes} (hpattern : pattern.head? = some (byteOf '<')) :
    findSub pattern text ≠ some 0 := by
  intro hfound
  obtain ⟨rest, hrest⟩ := List.isPrefixOf_iff_prefix.1 (findSub_eq_zero hfound)
  apply h.no_bracket
  rw [← hrest, List.head?_append, hpattern]
  rfl

theorem isKey_DocumentRoot : IsKey (ascii "DocumentRoot") :=
  ⟨by decide, forall_mem_of_all (by decide)⟩

theorem isKey_ServerName : IsKey (ascii "ServerName") :=
  ⟨by decide, forall_mem_of_all (by decide)⟩

theorem Directive.isKey (d : Directive) : IsKey d.key := by
  constructor
  · cases d <;> decide
  · apply forall_mem_of_all
    cases d <;> decide

/-! ## Numbers -/

theorem isValue_toDecimal (n : Nat) : IsValue (toDecimal n) := by
  have hdigit : ∀ c ∈ toDecimal n, isDigit c = true := fun _ => isDigit_of_mem_toDecimal
  have hspace : ∀ c ∈ toDecimal n, (ascii " \t\r\n").contains c = false := by
    have hws : ∀ c ∈ ascii " \t\r\n", isDigit c = false := forall_mem_of_all (by decide)
    intro c hc
    apply contains_eq_false hws
    simp [hdigit c hc]
  constructor
  · exact trim_of_notContains hspace
  · exact toDecimal_ne_nil n
  · exact not_mem_toDecimal (by decide) n
  · exact not_mem_toDecimal (by decide) n
  · exact not_mem_toDecimal (by decide) n

theorem numeralEnd_toDecimal (n : Nat) : numeralEnd (toDecimal n) = (toDecimal n).length := by
  obtain ⟨d, rest, hrest⟩ := List.exists_cons_of_ne_nil (toDecimal_ne_nil n)
  have hdigits := all_isDigit_toDecimal n
  have hd : isDigit d = true := isDigit_of_mem_toDecimal (by rw [hrest]; exact List.mem_cons_self)
  have hsign : ¬ (some d = some 43 ∨ some d = some 45) := by
    rintro (⟨⟨⟩⟩ | ⟨⟨⟩⟩) <;> cases hd
  unfold numeralEnd
  rw [readDigits_of_all_digits hdigits, hrest,
    List.takeWhile_cons_of_neg (by simp [Numeral.isSpace_of_isDigit hd])]
  simp only [List.length_nil, List.getElem?_cons_zero, if_neg hsign, Nat.zero_add]

theorem parsePositiveInt_toDecimal {n : Int} (hpos : 0 < n) (hn : n < 2 ^ 31) :
    parsePositiveInt (toDecimal n.toNat) = some n := by
  have hread := readDigits_of_all_digits (all_isDigit_toDecimal n.toNat)
  have hstoi : stoi (toDecimal n.toNat) = .ok (n, (toDecimal n.toNat).length) := by
    unfold stoi
    rw [hread]
    dsimp only
    rw [if_neg (toDecimal_ne_nil _), digitsValue_toDecimal, numeralEnd_toDecimal]
    have htoNat : (n.toNat : Int) = n := Int.toNat_of_nonneg (by omega)
    simp only [Bool.false_eq_true, if_false, htoNat]
    rw [if_neg (by omega)]
  unfold parsePositiveInt
  rw [if_neg (toDecimal_ne_nil _), hstoi]
  dsimp only
  rw [if_neg (by omega)]

end CppHttpd
