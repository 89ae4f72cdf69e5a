import CppHttpd.Config.Config
import CppHttpd.Foundation.Numerals

/-!
# What a configuration says

A line opens or closes a block, or it gives a word a value.  Of the lines with
one word the last one decides: outside the blocks what `load_config` stores for
it, and in a block what the host has.
-/

namespace CppHttpd

open CppHttpd.Foundation

/-! ## Lines -/

inductive LineItem where
  | blank
  | opens
  | closes
  | setting (word value : Bytes)

/-- What a line is depends on whether it stands in a block. -/
def lineItem (inVirtualHost : Bool) (line : Bytes) : LineItem :=
  let normalized := stripComment line
  if normalized = [] then .blank
  else if inVirtualHost ∧ findSub (ascii "</VirtualHost>") normalized = some 0 then .closes
  else if !inVirtualHost ∧ findSub (ascii "<VirtualHost") normalized = some 0 then .opens
  else
    match splitFirstWord normalized with
    | none => .blank
    | some (word, value) => .setting word value

def LineItem.inside (inVirtualHost : Bool) : LineItem → Bool
  | .opens => true
  | .closes => false
  | _ => inVirtualHost

/-- What `load_config` does with a line; `none` is the return from within the loop. -/
def LineItem.apply (inVirtualHost : Bool) (out : Config) : LineItem → Option (Bool × Config)
  | .blank => some (inVirtualHost, out)
  | .closes => some (false, out)
  | .opens => some (true, { out with virtualHosts := out.virtualHosts ++ [⟨[], []⟩] })
  | .setting word value =>
      if inVirtualHost then some (true, hostLine word value out)
      else (directiveLine word value out).map (false, ·)

theorem configLine_eq (inVirtualHost : Bool) (out : Config) (line : Bytes) :
    configLine inVirtualHost out line = (lineItem inVirtualHost line).apply inVirtualHost out := by
  unfold configLine lineItem
  dsimp only
  by_cases hempty : stripComment line = []
  · simp only [hempty, if_true]
    rfl
  · cases inVirtualHost with
    | true =>
        simp only [hempty, if_false, if_true, true_and, Bool.not_true, Bool.false_eq_true,
          false_and]
        split_ifs
        · rfl
        · cases splitFirstWord (stripComment line) with
          | none => rfl
          | some pair => rfl
    | false =>
        simp only [hempty, if_false, Bool.false_eq_true, false_and, Bool.not_false, true_and]
        split_ifs
        · rfl
        · cases splitFirstWord (stripComment line) with
          | none => rfl
          | some pair => rfl

abbrev Settings := List (Bytes × Bytes)

/-- The settings outside the blocks. -/
def outsideSettings (inVirtualHost : Bool) : List Bytes → Settings
  | [] => []
  | line :: lines =>
      let item := lineItem inVirtualHost line
      let later := outsideSettings (item.inside inVirtualHost) lines
      match item with
      | .setting word value => if inVirtualHost then later else (word, value) :: later
      | _ => later

/-- The settings of the block that the lines start in, and those of the blocks behind it. -/
def blockSettings (inVirtualHost : Bool) : List Bytes → Settings × List Settings
  | [] => ([], [])
  | line :: lines =>
      let item := lineItem inVirtualHost line
      let (block, later) := blockSettings (item.inside inVirtualHost) lines
      match item with
      | .blank => (block, later)
      | .opens => ([], block :: later)
      | .closes => ([], later)
      | .setting word value => if inVirtualHost then ((word, value) :: block, later) else (block, later)

/-- The value on the last of the lines with the word. -/
def lastSetting (word : Bytes) (settings : Settings) : Option Bytes :=
  (settings.filter (·.1 = word)).getLast?.map (·.2)

theorem lastSetting_cons (word key value : Bytes) (settings : Settings) :
    lastSetting word ((key, value) :: settings) =
      (lastSetting word settings).or (if key = word then some value else none) := by
  unfold lastSetting
  by_cases hkey : key = word
  · rw [List.filter_cons_of_pos (by simpa using hkey), List.getLast?_cons, if_pos hkey]
    cases (settings.filter (·.1 = word)).getLast? <;> rfl
  · rw [List.filter_cons_of_neg (by simpa using hkey), if_neg hkey, Option.or_none]

/-! ## Members that a word sets -/

/-- The lines with the word, and no others, set the member to what they are read as. -/
structure SetBy {α : Type} (get : Config → α) (word : Bytes) (read : Bytes → Option α) :
    Prop where
  line : ∀ {key value : Bytes} {out out' : Config}, directiveLine key value out = some out' →
    if key = word then read value = some (get out') else get out' = get out
  hosts : ∀ (out : Config) (virtualHosts : List VirtualHost),
    get { out with virtualHosts := virtualHosts } = get out

section

variable {α : Type} {get : Config → α} {word : Bytes} {read : Bytes → Option α}

theorem SetBy.get_hostLine (h : SetBy get word read) (key value : Bytes) (out : Config) :
    get (hostLine key value out) = get out := by
  unfold hostLine
  split_ifs
  · exact h.hosts out _
  · exact h.hosts out _
  · rfl

/-- The member is what the value is read as, or without a value what it was. -/
def StoredAs (get : Config → α) (read : Bytes → Option α) (out config : Config) :
    Option Bytes → Prop
  | none => get config = get out
  | some value => read value = some (get config)

theorem StoredAs.of_eq {out out' config : Config} {value : Option Bytes}
    (h : StoredAs get read out' config value) (heq : get out' = get out) :
    StoredAs get read out config value := by
  cases value with
  | none => exact h.trans heq
  | some value => exact h

theorem SetBy.storedAs_cons (h : SetBy get word read) {key value : Bytes} {out out' config : Config}
    (hline : directiveLine key value out = some out') {settings : Settings}
    (hrest : StoredAs get read out' config (lastSetting word settings)) :
    StoredAs get read out config (lastSetting word ((key, value) :: settings)) := by
  have hset := h.line hline
  rw [lastSetting_cons]
  cases hlast : lastSetting word settings with
  | some last =>
      rw [hlast] at hrest
      exact hrest
  | none =>
      rw [hlast] at hrest
      have hkept : get config = get out' := hrest
      rw [Option.none_or]
      by_cases hkey : key = word
      · rw [if_pos hkey] at hset ⊢
        rw [← hkept] at hset
        exact hset
      · rw [if_neg hkey] at hset ⊢
        exact hkept.trans hset

theorem SetBy.stored (h : SetBy get word read) (lines : List Bytes) {inVirtualHost : Bool}
    {out config : Config} (hload : configLoop inVirtualHost out lines = (true, config)) :
    StoredAs get read out config (lastSetting word (outsideSettings inVirtualHost lines)) := by
  induction lines generalizing inVirtualHost out with
  | nil =>
      obtain ⟨-, rfl⟩ := Prod.mk.inj hload
      rfl
  | cons line lines ih =>
      rw [configLoop, configLine_eq] at hload
      rw [outsideSettings]
      cases hitem : lineItem inVirtualHost line with
      | blank =>
          rw [hitem] at hload
          exact ih hload
      | closes =>
          rw [hitem] at hload
          exact ih hload
      | opens =>
          rw [hitem] at hload
          exact (ih hload).of_eq (h.hosts out _)
      | setting key value =>
          rw [hitem] at hload
          cases inVirtualHost with
          | true => exact (ih hload).of_eq (h.get_hostLine key value out)
          | false =>
              simp only [LineItem.apply, Bool.false_eq_true, if_false] at hload ⊢
              cases hline : directiveLine key value out with
              | none =>
                  rw [hline] at hload
                  cases hload
              | some out' =>
                  rw [hline] at hload
                  exact h.storedAs_cons hline (ih hload)

end

/-! ## Hosts -/

def hostFrom (host : VirtualHost) (block : Settings) : VirtualHost where
  documentRoot := (lastSetting (ascii "DocumentRoot") block).getD host.documentRoot
  serverName := (lastSetting (ascii "ServerName") block).getD host.serverName

def modifyLast (f : VirtualHost → VirtualHost) (hosts : List VirtualHost) : List VirtualHost :=
  hosts.modify (hosts.length - 1) f

theorem modifyLast_modifyLast (f g : VirtualHost → VirtualHost) (hosts : List VirtualHost) :
    modifyLast g (modifyLast f hosts) = modifyLast (g ∘ f) hosts := by
  rw [modifyLast, modifyLast, List.length_modify, List.modify_modify_eq]
  rfl

theorem modifyLast_concat (f : VirtualHost → VirtualHost) (hosts : List VirtualHost)
    (host : VirtualHost) : modifyLast f (hosts ++ [host]) = hosts ++ [f host] := by
  rw [modifyLast, List.length_append, List.length_singleton, Nat.add_sub_cancel]
  induction hosts with
  | nil => rfl
  | cons first hosts ih => simpa using ih

theorem hostFrom_nil : (hostFrom · []) = (id : VirtualHost → VirtualHost) := rfl

theorem hostFrom_cons (key value : Bytes) (block : Settings) :
    (hostFrom · ((key, value) :: block)) =
      (hostFrom · block) ∘ (hostFrom · [(key, value)]) := by
  funext host
  have hget : ∀ (word : Bytes) (default : Bytes),
      (lastSetting word ((key, value) :: block)).getD default =
        (lastSetting word block).getD ((lastSetting word [(key, value)]).getD default) := by
    intro word default
    rw [lastSetting_cons, lastSetting_cons]
    cases lastSetting word block with
    | none => rfl
    | some last => rfl
  simp only [hostFrom, Function.comp_apply, hget]

theorem lastSetting_singleton (word key value : Bytes) :
    lastSetting word [(key, value)] = if key = word then some value else none := by
  rw [lastSetting_cons]
  rfl

theorem hostLine_hosts (key value : Bytes) (out : Config) :
    (hostLine key value out).virtualHosts =
      modifyLast (hostFrom · [(key, value)]) out.virtualHosts := by
  unfold hostLine
  split_ifs with hroot hname
  · have hset : (hostFrom · [(key, value)]) =
        fun vhost : VirtualHost => { vhost with documentRoot := value } := by
      have hne : ascii "DocumentRoot" ≠ ascii "ServerName" := by decide
      funext host
      simp [hostFrom, lastSetting_singleton, hroot, hne]
    rw [hset]
    rfl
  · have hset : (hostFrom · [(key, value)]) =
        fun vhost : VirtualHost => { vhost with serverName := value } := by
      have hne : ascii "ServerName" ≠ ascii "DocumentRoot" := by decide
      funext host
      simp [hostFrom, lastSetting_singleton, hname, hne]
    rw [hset]
    rfl
  · have hset : (hostFrom · [(key, value)]) = (id : VirtualHost → VirtualHost) := by
      funext host
      simp [hostFrom, lastSetting_singleton, hroot, hname]
    rw [hset, modifyLast, List.modify_id]

/-- The hosts there were, the last of them as its block goes on, and those that follow. -/
def hostsAfter (inVirtualHost : Bool) (hosts : List VirtualHost) (lines : List Bytes) :
    List VirtualHost :=
  let read := blockSettings inVirtualHost lines
  (if inVirtualHost then modifyLast (hostFrom · read.1) hosts else hosts) ++
    read.2.map (hostFrom ⟨[], []⟩)

theorem lineItem_ne_closes (line : Bytes) : lineItem false line ≠ .closes := by
  unfold lineItem
  dsimp only
  rw [if_neg (c := false = true ∧ _) (by simp)]
  split_ifs
  · nofun
  · nofun
  · cases splitFirstWord (stripComment line) with
    | none => nofun
    | some pair => nofun

theorem lineItem_ne_opens (line : Bytes) : lineItem true line ≠ .opens := by
  unfold lineItem
  dsimp only
  rw [if_neg (c := (!true) = true ∧ _) (by simp)]
  split_ifs
  · nofun
  · nofun
  · cases splitFirstWord (stripComment line) with
    | none => nofun
    | some pair => nofun

theorem directiveLine_hosts {key value : Bytes} {out out' : Config}
    (h : directiveLine key value out = some out') : out'.virtualHosts = out.virtualHosts := by
  unfold directiveLine at h
  have hmap : ∀ {f : Int → Config}, (parsePositiveInt value).map f = some out' →
      (∀ n, (f n).virtualHosts = out.virtualHosts) → out'.virtualHosts = out.virtualHosts := by
    intro f hsome hf
    obtain ⟨n, -, rfl⟩ := Option.map_eq_some_iff.1 hsome
    exact hf n
  split_ifs at h
  · exact hmap h fun _ => rfl
  · exact hmap h fun _ => rfl
  · exact hmap h fun _ => rfl
  · exact hmap h fun _ => rfl
  · obtain rfl := Option.some.inj h
    rfl
  · obtain rfl := Option.some.inj h
    rfl
  · obtain rfl := Option.some.inj h
    rfl
  · exact hmap h fun _ => rfl
  · obtain rfl := Option.some.inj h
    rfl

theorem virtualHosts_of_configLoop (lines : List Bytes) {inVirtualHost : Bool}
    {out config : Config} (hload : configLoop inVirtualHost out lines = (true, config)) :
    config.virtualHosts = hostsAfter inVirtualHost out.virtualHosts lines := by
  induction lines generalizing inVirtualHost out with
  | nil =>
      obtain ⟨hclosed, rfl⟩ := Prod.mk.inj hload
      cases inVirtualHost with
      | true => cases hclosed
      | false => simp [hostsAfter, blockSettings]
  | cons line lines ih =>
      rw [configLoop, configLine_eq] at hload
      unfold hostsAfter
      rw [blockSettings]
      cases hitem : lineItem inVirtualHost line with
      | blank =>
          rw [hitem] at hload
          exact ih hload
      | closes =>
          rw [hitem] at hload
          cases inVirtualHost with
          | true =>
              rw [ih hload, hostsAfter]
              simp only [if_true, Bool.false_eq_true, if_false, LineItem.inside, hostFrom_nil,
                modifyLast, List.modify_id]
          | false => exact absurd hitem (lineItem_ne_closes line)
      | opens =>
          rw [hitem] at hload
          cases inVirtualHost with
          | true => exact absurd hitem (lineItem_ne_opens line)
          | false =>
              rw [ih hload, hostsAfter]
              simp only [if_true, Bool.false_eq_true, if_false, LineItem.inside,
                modifyLast_concat, List.map_cons, List.append_assoc, List.singleton_append]
      | setting key value =>
          rw [hitem] at hload
          cases inVirtualHost with
          | true =>
              rw [ih hload, hostsAfter, hostLine_hosts, modifyLast_modifyLast]
              simp only [if_true, LineItem.inside, ← hostFrom_cons]
          | false =>
              simp only [LineItem.apply, Bool.false_eq_true, if_false] at hload ⊢
              cases hline : directiveLine key value out with
              | none =>
                  rw [hline] at hload
                  cases hload
              | some out' =>
                  rw [hline] at hload
                  rw [ih hload, directiveLine_hosts hline]
                  rfl

/-- Every host is what its own block says. -/
theorem hosts_eq {lines : List Bytes} {config : Config}
    (hload : configLoop false {} lines = (true, config)) :
    config.virtualHosts = (blockSettings false lines).2.map (hostFrom ⟨[], []⟩) := by
  rw [virtualHosts_of_configLoop lines hload]
  rfl

end CppHttpd
