import CppHttpd.Foundation.Numerals
import CppHttpd.Http.Handlers.CgiDialogue
import CppHttpd.Http.Handlers.CgiHandler

/-!
# What a CGI program is told

A program gets its environment as strings, in the order in which a hash map
happens to be iterated, and reads it with `getenv`.  It can tell from it how many
bytes it has to read, and no header of the client becomes a variable of its own.
-/

namespace CppHttpd

open CppHttpd.Foundation

/-! ## Reading an environment -/

/-- The strings behind `envp`, up to the NUL that ends each of them. -/
def envStrs (it : HttpResponse.Iteration) (environment : HeaderMap) : List Bytes :=
  (it.order environment).map fun entry => cString (entry.1 ++ ascii "=" ++ entry.2)

/-- What `getenv` finds in these strings. -/
def getenv (name : Bytes) (strings : List Bytes) : Option Bytes :=
  strings.findSome? (expect (name ++ ascii "="))

structure IsVariable (name : Bytes) : Prop where
  noEquals : byteOf '=' ∉ name
  noNUL : NUL ∉ name

instance (name : Bytes) : Decidable (IsVariable name) :=
  decidable_of_iff (byteOf '=' ∉ name ∧ NUL ∉ name)
    ⟨fun h => ⟨h.1, h.2⟩, fun h => ⟨h.noEquals, h.noNUL⟩⟩

theorem cString_entry {key : Bytes} (hkey : IsVariable key) (value : Bytes) :
    cString (key ++ ascii "=" ++ value) = key ++ byteOf '=' :: cString value := by
  have hbytes : ∀ c ∈ key, decide (c ≠ NUL) = true := fun c hc => by
    rw [decide_eq_true_eq]
    rintro rfl
    exact hkey.noNUL hc
  have hsplit : key ++ ascii "=" ++ value = key ++ byteOf '=' :: value := by
    simp [ascii]
  rw [hsplit, cString, List.takeWhile_append_of_pos hbytes, List.takeWhile_cons_of_pos (by decide)]
  rfl

theorem expect_entry {name key : Bytes} (hname : byteOf '=' ∉ name) (hkey : IsVariable key)
    (value : Bytes) :
    expect (name ++ ascii "=") (cString (key ++ ascii "=" ++ value)) =
      if key = name then some (cString value) else none := by
  have happend (rest : Bytes) : name ++ ascii "=" ++ rest = name ++ byteOf '=' :: rest := by
    simp [ascii]
  rw [cString_entry hkey]
  split_ifs with heq
  · rw [expect_eq_some_iff, heq, happend]
  · rw [← Option.not_isSome_iff_eq_none, Option.isSome_iff_exists]
    rintro ⟨rest, hrest⟩
    rw [expect_eq_some_iff, happend] at hrest
    exact heq (append_cons_inj hkey.noEquals hname hrest).1

theorem getenv_map {name : Bytes} (hname : byteOf '=' ∉ name)
    {entries : List (Sigma fun _ : Bytes => Bytes)}
    (hkeys : ∀ entry ∈ entries, IsVariable entry.1) :
    getenv name (entries.map fun entry => cString (entry.1 ++ ascii "=" ++ entry.2)) =
      (entries.dlookup name).map cString := by
  induction entries with
  | nil => rfl
  | cons entry entries ih =>
      obtain ⟨hkey, hrest⟩ := List.forall_mem_cons.1 hkeys
      have hnext := ih hrest
      obtain ⟨key, value⟩ := entry
      rw [getenv] at hnext ⊢
      rw [List.map_cons, List.findSome?_cons, expect_entry hname hkey, hnext]
      by_cases heq : key = name
      · subst heq
        simp
      · rw [if_neg heq, List.dlookup_cons_ne entries _ (Ne.symm heq)]

/-- Whatever the order is, the variables of the map are found, and nothing else. -/
theorem getenv_envStrs (it : HttpResponse.Iteration) {environment : HeaderMap}
    (hkeys : ∀ key ∈ environment, IsVariable key) {name : Bytes} (hname : byteOf '=' ∉ name) :
    getenv name (envStrs it environment) = (environment.lookup name).map cString := by
  have hperm := it.perm environment
  have hentries : ∀ entry ∈ it.order environment, IsVariable entry.1 := fun entry hentry =>
    hkeys entry.1 (AList.mem_keys.1 (List.mem_map_of_mem (hperm.subset hentry)))
  rw [envStrs, getenv_map hname hentries, AList.lookup,
    List.perm_dlookup name (List.perm_nodupKeys hperm |>.2 environment.nodupKeys) hperm]

/-! ## The environment of a program -/

/-- The variables that the server sets. -/
def cgiVariables : List Bytes :=
  [ascii "REQUEST_METHOD", ascii "QUERY_STRING", ascii "SERVER_PROTOCOL", ascii "SERVER_PORT",
    ascii "SERVER_NAME", ascii "CONTENT_LENGTH", ascii "CONTENT_TYPE", ascii "REMOTE_ADDR",
    ascii "REMOTE_HOST"]

section

variable (config : Config) (request : HttpRequest) (vhost : Option VirtualHost)
  (clientRemoteAddr : Option Bytes)

theorem mem_cgiVariables_insert {environment : HeaderMap}
    (h : ∀ key ∈ environment, key ∈ cgiVariables) {name : Bytes} (hname : name ∈ cgiVariables)
    (value : Bytes) : ∀ key ∈ environment.insert name value, key ∈ cgiVariables := by
  intro key hkey
  rcases (AList.mem_insert _).1 hkey with rfl | hkey
  · exact hname
  · exact h key hkey

theorem mem_buildCgiEnvironment :
    ∀ key ∈ buildCgiEnvironment config request vhost clientRemoteAddr, key ∈ cgiVariables := by
  have hempty : ∀ key ∈ (∅ : HeaderMap), key ∈ cgiVariables := fun key hkey =>
    absurd hkey (AList.notMem_empty key)
  unfold buildCgiEnvironment
  -- whichever branches are taken, every variable is set under one of these names
  cases vhost <;> dsimp only <;> split_ifs <;>
    · repeat refine mem_cgiVariables_insert ?_ (by decide) _
      exact hempty

theorem isVariable_of_mem {name : Bytes}
    (h : name ∈ buildCgiEnvironment config request vhost clientRemoteAddr) : IsVariable name := by
  have hall : ∀ key ∈ cgiVariables, IsVariable key := by decide
  exact hall name (mem_buildCgiEnvironment config request vhost clientRemoteAddr name h)

theorem lookup_contentLength :
    (buildCgiEnvironment config request vhost clientRemoteAddr).lookup (ascii "CONTENT_LENGTH") =
      some (toDecimal (if request.methodStr = ascii "POST" then request.buffer
        else []).length) := by
  have hother : ∀ name ∈ [ascii "REMOTE_HOST", ascii "REMOTE_ADDR", ascii "CONTENT_TYPE"],
      ascii "CONTENT_LENGTH" ≠ name := by decide
  unfold buildCgiEnvironment
  dsimp only
  rw [AList.lookup_insert_ne (hother _ (by simp)), AList.lookup_insert_ne (hother _ (by simp))]
  split_ifs
  · rw [AList.lookup_insert_ne (hother _ (by simp)), AList.lookup_insert]
  · rw [AList.lookup_insert]
  · rw [AList.lookup_insert_ne (hother _ (by simp)), AList.lookup_insert]
    rfl

theorem getenv_contentLength (it : HttpResponse.Iteration) :
    getenv (ascii "CONTENT_LENGTH")
        (envStrs it (buildCgiEnvironment config request vhost clientRemoteAddr)) =
      some (toDecimal (if request.methodStr = ascii "POST" then request.buffer
        else []).length) := by
  have hdigits (n : Nat) : NUL ∉ toDecimal n := not_mem_toDecimal (by decide) n
  rw [getenv_envStrs it (fun _ => isVariable_of_mem config request vhost clientRemoteAddr)
    (by decide), lookup_contentLength, Option.map_some]
  exact congrArg some (cString_of_not_mem (hdigits _))

end

/-- Nothing is missing, unless the server is still writing or the program does not read. -/
theorem CgiDialogue.Sends.unwritten {d : CgiDialogue} {cgi : CgiSetting} {s : CgiRun}
    (h : d.Sends cgi s) : ∃ unwritten, d.consumed ++ s.stdinPipe.bytes ++ unwritten = cgi.input ∧
      (s.stdinPipe.childOpen = true → (∀ written inCall, s.stage ≠ .writing written inCall) →
        unwritten = []) := by
  have hrefused (hsends : d.consumed ++ s.stdinPipe.bytes <+: cgi.input ∧
      s.stdinPipe.childOpen = false) :
      ∃ unwritten, d.consumed ++ s.stdinPipe.bytes ++ unwritten = cgi.input ∧
        (s.stdinPipe.childOpen = true → (∀ written inCall, s.stage ≠ .writing written inCall) →
          unwritten = []) := by
    obtain ⟨⟨unwritten, hwritten⟩, hclosed⟩ := hsends
    refine ⟨unwritten, hwritten, fun hopen => ?_⟩
    rw [hclosed] at hopen
    cases hopen
  unfold CgiDialogue.Sends at h
  dsimp only at h
  split at h
  case h_1 written inCall hstage =>
    refine ⟨cgi.input.drop (written + inCall), ?_, fun _ hdone => absurd hstage (hdone _ _)⟩
    rw [h.2, List.take_append_drop]
  case h_2 => exact hrefused h
  case h_3 => exact hrefused h
  case h_4 => exact hrefused h
  case h_5 => exact ⟨[], by rw [h, List.append_nil], fun _ _ => rfl⟩

/--
However the variables are ordered, a program finds with `getenv` what the server has set,
up to a NUL, and no other variable.  It is told the length of its input, and if it keeps
its end of the pipe open it can read that many bytes and no more once the server has
written them: they are the body of the request.
-/
theorem cgiProgram_told (it : HttpResponse.Iteration) (config : Config) (vhost : Option VirtualHost)
    (clientRemoteAddr : Option Bytes) (cgi : CgiSetting) {trace : List (CgiRun × CgiLabel)}
    {s : CgiRun} (hrun : (cgiProcesses cgi).Run trace s) :
    let environment := buildCgiEnvironment config cgi.request vhost clientRemoteAddr
    let strings := envStrs it environment
    let consumed := (CgiDialogue.ofTrace trace).consumed
    (∀ name, byteOf '=' ∉ name → getenv name strings = (environment.lookup name).map cString ∧
      (name ∉ cgiVariables → getenv name strings = none)) ∧
    getenv (ascii "CONTENT_LENGTH") strings = some (toDecimal cgi.input.length) ∧
    ∃ unwritten, consumed ++ s.stdinPipe.bytes ++ unwritten = cgi.input ∧
      (s.stdinPipe.childOpen = true → (∀ written inCall, s.stage ≠ .writing written inCall) →
        unwritten = []) := by
  intro environment strings consumed
  have hkeys : ∀ key ∈ environment, IsVariable key := fun _ =>
    isVariable_of_mem config cgi.request vhost clientRemoteAddr
  have hget : ∀ name, byteOf '=' ∉ name →
      getenv name strings = (environment.lookup name).map cString := fun _ =>
    getenv_envStrs it hkeys
  refine ⟨fun name hname => ⟨hget name hname, fun hforeign => ?_⟩, ?_, ?_⟩
  · have hnone : name ∉ environment := fun hmem =>
      hforeign (mem_buildCgiEnvironment config cgi.request vhost clientRemoteAddr name hmem)
    rw [hget name hname, AList.lookup_eq_none.2 hnone, Option.map_none]
  · exact getenv_contentLength config cgi.request vhost clientRemoteAddr it
  · exact (CgiDialogue.follows_of_run hrun).sends.unwritten

/-- A client with a header that programs take for a variable of their own. -/
theorem cgiProgram_told_post :
    let request : HttpRequest :=
      { method := .POST, methodStr := ascii "POST", buffer := ascii "ab"
        headers := AList.insert (ascii "proxy") (ascii "evil") ∅ }
    let cgi : CgiSetting := { request }
    let strings := envStrs .inOrder (buildCgiEnvironment {} request none none)
    ∃ trace s, (cgiProcesses cgi).Run trace s ∧
      getenv (ascii "CONTENT_LENGTH") strings = some (ascii "2") ∧
      getenv (ascii "HTTP_PROXY") strings = none ∧
      ∃ unwritten, (CgiDialogue.ofTrace trace).consumed ++ s.stdinPipe.bytes ++ unwritten =
        ascii "ab" := by
  intro request cgi strings
  let labels : List CgiLabel := [.parent (.put 2), .child (.readInput 1), .parent .go]
  have hrun := (Machine.Run.init (M := cgiProcesses cgi) rfl).record labels rfl
  obtain ⟨hget, hlength, unwritten, hinput, -⟩ :=
    cgiProgram_told .inOrder {} none none cgi hrun
  exact ⟨_, _, hrun, hlength.trans (by decide), (hget _ (by decide)).2 (by decide), unwritten,
    hinput⟩

end CppHttpd
