import CppHttpd.Server.ThreadPool

/-!
# Draining the thread pool

The sentinels are queued behind every connection, and there is one for each
worker.  So no worker leaves before all connections were taken, and when all
workers have left nothing is queued any more.
-/

namespace CppHttpd

open CppHttpd.Foundation

def PoolAcceptor.inHand : PoolAcceptor → List Client
  | .pushing client => [client]
  | _ => []

def QueueEntry.clients : QueueEntry → List Client
  | .client c => [c]
  | .sentinel => []

def QueueEntry.sentinels : QueueEntry → Nat
  | .client _ => 0
  | .sentinel => 1

def clientsOf (queue : List QueueEntry) : List Client := queue.flatMap QueueEntry.clients

def sentinelsOf (queue : List QueueEntry) : Nat := (queue.map QueueEntry.sentinels).sum

/-- A client is not queued behind a sentinel. -/
def ClientsFirst (queue : List QueueEntry) : Prop :=
  queue.Pairwise fun first second => first = .sentinel → second = .sentinel

namespace PoolStage

/-- Taken from the queue, but not yet passed to `handle_connection`. -/
def inHand : PoolStage → List Client
  | .taken entry => entry.clients
  | _ => []

/-- Passed to `handle_connection`, but not yet closed. -/
def inService : PoolStage → List Client
  | .handling client => [client]
  | .closing client => [client]
  | _ => []

/-- The sentinel that ends the worker. -/
def sentinels : PoolStage → Nat
  | .taken entry => entry.sentinels
  | .exited => 1
  | _ => 0

def weight : PoolStage → Nat
  | .checking => 1
  | .sleeping => 0
  | .taken _ => 4
  | .handling _ => 3
  | .closing _ => 2
  | .exited => 0

end PoolStage

namespace PoolWorker

def checks (worker : PoolWorker) : Nat := if worker.stage = .checking then 1 else 0

def weight (worker : PoolWorker) : Nat := worker.stage.weight

def holds (number : Nat) (worker : PoolWorker) : Nat :=
  occurrences number worker.stage.inHand + occurrences number worker.passed

/-- What a worker does for itself is in order. -/
structure Orderly (worker : PoolWorker) : Prop where
  served : worker.passed = worker.closed ++ worker.stage.inService
  sentinels_eq : worker.sentinels = worker.stage.sentinels

end PoolWorker

namespace ThreadPool

variable {n : Nat}

/-- How often a connection is with the acceptor, in the queue or with a worker. -/
def places (s : ThreadPool n) (number : Nat) : Nat :=
  occurrences number s.acceptor.inHand + occurrences number (clientsOf s.queue) +
    total (PoolWorker.holds number) s.workers

def queuedSentinels (s : ThreadPool n) : Nat :=
  if s.main = .joiningAcceptor then 0 else n

structure Accounted (s : ThreadPool n) : Prop where
  placed : ∀ number, s.places number = if number < s.accepted then 1 else 0
  sentinels : sentinelsOf s.queue + total PoolWorker.sentinels s.workers = s.queuedSentinels
  orderly : ∀ w, (s.workers w).Orderly
  clientsFirst : ClientsFirst s.queue
  /-- A sentinel is taken only when no connection is queued. -/
  drained : 0 < total PoolWorker.sentinels s.workers → clientsOf s.queue = []
  joined : s.main ≠ .joiningAcceptor → s.acceptor = .left

/-- What a worker takes from the queue, it holds. -/
theorem Accounted.of_update {s s' : ThreadPool n} (h : Accounted s) {w : Fin n}
    {worker : PoolWorker} (hworkers : s'.workers = Function.update s.workers w worker)
    (hacceptor : s'.acceptor = s.acceptor) (haccepted : s'.accepted = s.accepted)
    (hmain : s'.main = s.main) (horderly : worker.Orderly) (hfirst : ClientsFirst s'.queue)
    (hplaced : ∀ number, occurrences number (clientsOf s'.queue) + worker.holds number =
      occurrences number (clientsOf s.queue) + (s.workers w).holds number)
    (hsentinels : sentinelsOf s'.queue + worker.sentinels =
      sentinelsOf s.queue + (s.workers w).sentinels)
    (hdrained : clientsOf s'.queue ≠ [] →
      worker.sentinels = (s.workers w).sentinels ∧ clientsOf s.queue ≠ []) :
    Accounted s' where
  placed number := by
    have htotal := total_update (PoolWorker.holds number) s.workers w worker
    have hbefore := h.placed number
    have hmoved := hplaced number
    rw [haccepted, ← hbefore]
    unfold places
    rw [hworkers, hacceptor]
    omega
  sentinels := by
    have htotal := total_update PoolWorker.sentinels s.workers w worker
    have hbefore := h.sentinels
    unfold queuedSentinels at hbefore ⊢
    rw [hworkers, hmain]
    omega
  orderly v := by
    rw [hworkers]
    by_cases hv : v = w
    · subst hv
      rwa [Function.update_self]
    · rw [Function.update_of_ne hv]
      exact h.orderly v
  clientsFirst := hfirst
  drained hpos := by
    by_contra hqueued
    obtain ⟨hsame, hbefore⟩ := hdrained hqueued
    rw [hworkers, total_update_same hsame] at hpos
    exact hbefore (h.drained hpos)
  joined := by
    rw [hmain, hacceptor]
    exact h.joined

theorem ClientsFirst.clientsOf_eq_nil {rest : List QueueEntry}
    (h : ClientsFirst (.sentinel :: rest)) : clientsOf rest = [] := by
  have hall := (List.pairwise_cons.1 h).1
  rw [clientsOf, List.flatMap_eq_nil_iff]
  intro entry hentry
  rw [hall entry hentry rfl]
  rfl

theorem sentinels_eq_ite (entry : QueueEntry) :
    (if entry = .sentinel then 1 else 0) = entry.sentinels := by
  cases entry <;> rfl

theorem Accounted.worker {s s' : ThreadPool n} (h : Accounted s) {w : Fin n}
    (houtcome : WorkerOutcome s w s') : Accounted s' := by
  obtain ⟨hserved, hown⟩ := h.orderly w
  cases houtcome with
  | @takes entry rest hstage hqueue =>
      have hfirst := h.clientsFirst
      rw [hqueue] at hfirst
      rw [hstage] at hserved hown
      rw [sentinels_eq_ite]
      refine h.of_update rfl rfl rfl rfl ⟨hserved, ?_⟩ (List.pairwise_cons.1 hfirst).2
        (fun number => ?_) ?_ fun hqueued => ?_
      · rw [hown]
        exact Nat.zero_add _
      · rw [hqueue, PoolWorker.holds, PoolWorker.holds, hstage]
        simp only [clientsOf, List.flatMap_cons, occurrences_append, PoolStage.inHand,
          occurrences_nil]
        omega
      · rw [hqueue]
        simp only [sentinelsOf, List.map_cons, List.sum_cons]
        omega
      · cases entry with
        | sentinel => exact absurd (ClientsFirst.clientsOf_eq_nil hfirst) hqueued
        | client client => exact ⟨rfl, by simp [hqueue, clientsOf, QueueEntry.clients]⟩
  | sleeps hstage | exits hstage | passes hstage | returns hstage | closes hstage =>
      refine h.of_update rfl rfl rfl rfl ⟨?_, ?_⟩ h.clientsFirst (fun number => ?_) rfl
        fun hqueued => ⟨rfl, hqueued⟩
      · simp [hserved, hstage, PoolStage.inService]
      · simp [hown, hstage, PoolStage.sentinels, QueueEntry.sentinels]
      · simp [setWorker, PoolWorker.holds, hstage, PoolStage.inHand, QueueEntry.clients,
          Nat.add_comm]

/-! ## Steps of the other threads -/

/-- Two states of a worker that differ in whether it sleeps. -/
structure SameWork (worker worker' : PoolWorker) : Prop where
  inHand : worker'.stage.inHand = worker.stage.inHand
  inService : worker'.stage.inService = worker.stage.inService
  stageSentinels : worker'.stage.sentinels = worker.stage.sentinels
  passed : worker'.passed = worker.passed
  closed : worker'.closed = worker.closed
  sentinels : worker'.sentinels = worker.sentinels

theorem SameWork.refl (worker : PoolWorker) : SameWork worker worker :=
  ⟨rfl, rfl, rfl, rfl, rfl, rfl⟩

theorem sameWork_wake (worker : PoolWorker) : SameWork worker (wake worker) := by
  unfold wake
  split_ifs with hsleeping
  · constructor <;> simp [hsleeping, PoolStage.inHand, PoolStage.inService, PoolStage.sentinels]
  · exact .refl worker

theorem sameWork_setWorker (s : ThreadPool n) (w v : Fin n) :
    SameWork (s.workers v) ((s.setWorker w (wake (s.workers w))).workers v) := by
  by_cases hv : v = w
  · subst hv
    simpa [setWorker] using sameWork_wake (s.workers v)
  · simpa [setWorker, hv] using SameWork.refl (s.workers v)

theorem Accounted.of_others {s s' : ThreadPool n} (h : Accounted s)
    (hworkers : ∀ w, SameWork (s.workers w) (s'.workers w))
    (hplaced : ∀ number, occurrences number s'.acceptor.inHand +
        occurrences number (clientsOf s'.queue) + (if number < s.accepted then 1 else 0) =
      occurrences number s.acceptor.inHand + occurrences number (clientsOf s.queue) +
        if number < s'.accepted then 1 else 0)
    (hsentinels : sentinelsOf s'.queue + s.queuedSentinels =
      sentinelsOf s.queue + s'.queuedSentinels)
    (hfirst : ClientsFirst s'.queue)
    (hdrained : 0 < total PoolWorker.sentinels s.workers → clientsOf s'.queue = [])
    (hjoined : s'.main ≠ .joiningAcceptor → s'.acceptor = .left) : Accounted s' := by
  have htotal : total PoolWorker.sentinels s'.workers = total PoolWorker.sentinels s.workers :=
    Finset.sum_congr rfl fun w _ => (hworkers w).sentinels
  refine ⟨fun number => ?_, ?_, fun w => ?_, hfirst, fun hpos => hdrained (htotal ▸ hpos),
    hjoined⟩
  · have hholds : total (PoolWorker.holds number) s'.workers =
        total (PoolWorker.holds number) s.workers :=
      Finset.sum_congr rfl fun w _ => by
        rw [PoolWorker.holds, PoolWorker.holds, (hworkers w).inHand, (hworkers w).passed]
    have hbefore := h.placed number
    have hmoved := hplaced number
    unfold places at hbefore ⊢
    omega
  · have hbefore := h.sentinels
    omega
  · obtain ⟨hserved, hown⟩ := h.orderly w
    obtain ⟨-, hservice, hstage, hpassed, hclosed, hsame⟩ := hworkers w
    exact ⟨by rw [hpassed, hclosed, hservice, hserved], by rw [hsame, hstage, hown]⟩

theorem Accounted.notifyOne {s s' : ThreadPool n} (h : Accounted s) {woken : Option (Fin n)}
    (hnotify : s.notifyOne woken = some s') : Accounted s' := by
  cases woken with
  | none =>
      simp only [ThreadPool.notifyOne] at hnotify
      split_ifs at hnotify
      cases hnotify
      exact h
  | some w =>
      simp only [ThreadPool.notifyOne] at hnotify
      split_ifs at hnotify
      cases hnotify
      exact h.of_others (sameWork_setWorker s w) (fun _ => rfl) rfl h.clientsFirst h.drained
        h.joined

theorem sentinelsOf_append (queue queue' : List QueueEntry) :
    sentinelsOf (queue ++ queue') = sentinelsOf queue + sentinelsOf queue' := by
  simp [sentinelsOf]

theorem clientsOf_append (queue queue' : List QueueEntry) :
    clientsOf (queue ++ queue') = clientsOf queue ++ clientsOf queue' := by
  simp [clientsOf]

theorem ne_sentinel {queue : List QueueEntry} (h : sentinelsOf queue = 0) {entry : QueueEntry}
    (hentry : entry ∈ queue) : entry ≠ .sentinel := by
  rintro rfl
  have hnone := List.sum_eq_zero_iff.1 h QueueEntry.sentinel.sentinels (List.mem_map_of_mem hentry)
  cases hnone

theorem Accounted.no_sentinel {s : ThreadPool n} (h : Accounted s)
    (hacceptor : s.acceptor ≠ .left) :
    s.main = .joiningAcceptor ∧ sentinelsOf s.queue = 0 ∧
      total PoolWorker.sentinels s.workers = 0 := by
  have hmain : s.main = .joiningAcceptor := by
    by_contra hne
    exact hacceptor (h.joined hne)
  have hnone := h.sentinels
  rw [queuedSentinels, if_pos hmain] at hnone
  exact ⟨hmain, by omega, by omega⟩

theorem Accounted.push {s : ThreadPool n} (h : Accounted s) {client : Client}
    (hacceptor : s.acceptor = .pushing client) :
    Accounted { s with
      queue := s.queue ++ [QueueEntry.client client]
      acceptor := .selecting } := by
  obtain ⟨hmain, hnone, htaken⟩ := h.no_sentinel (by simp [hacceptor])
  refine h.of_others (fun w => .refl _) (fun number => ?_) ?_ ?_ (fun hpos => ?_)
    fun hjoined => absurd hmain hjoined
  · simp only [hacceptor, clientsOf_append, occurrences_append, PoolAcceptor.inHand,
      occurrences_nil]
    simp only [clientsOf, List.flatMap_cons, List.flatMap_nil, QueueEntry.clients,
      List.append_nil]
    omega
  · rw [sentinelsOf_append]
    rfl
  · refine List.pairwise_append.2 ⟨h.clientsFirst, List.pairwise_singleton _ _, ?_⟩
    exact fun entry hentry _ _ hsentinel => absurd hsentinel (ne_sentinel hnone hentry)
  · omega

theorem Accounted.pushSentinels {s : ThreadPool n} (h : Accounted s)
    (hmain : s.main = .joiningAcceptor) (hacceptor : s.acceptor = .left) :
    Accounted { s with
      queue := s.queue ++ List.replicate n .sentinel
      main := .notifying } := by
  have hnone := h.sentinels
  rw [queuedSentinels, if_pos hmain] at hnone
  have hclients : clientsOf (List.replicate n .sentinel) = [] := by
    simp [clientsOf, QueueEntry.clients]
  refine h.of_others (fun w => .refl _) (fun number => ?_) ?_ ?_ (fun hpos => by omega)
    fun _ => hacceptor
  · rw [clientsOf_append, hclients, List.append_nil]
  · rw [sentinelsOf_append]
    simp [sentinelsOf, queuedSentinels, hmain, QueueEntry.sentinels]
  · refine List.pairwise_append.2 ⟨h.clientsFirst, ?_, ?_⟩
    · exact List.pairwise_replicate.2 (.inr fun _ => rfl)
    · exact fun _ _ _ hentry _ => List.eq_of_mem_replicate hentry

theorem Accounted.step {s s' : ThreadPool n} (h : Accounted s) (houtcome : StepOutcome s s') :
    Accounted s' := by
  cases houtcome with
  | worker houtcome => exact h.worker houtcome
  | entersShutdown | writesShutdown | endsInput =>
      exact ⟨h.placed, h.sentinels, h.orderly, h.clientsFirst, h.drained, h.joined⟩
  | interrupted => exact h
  | fails hstage | turns hstage | isReady hstage =>
      refine h.of_others (fun _ => .refl _) (fun _ => ?_) rfl h.clientsFirst h.drained
        fun hmain => ?_
      · simp [hstage, PoolAcceptor.inHand]
      · exact absurd (h.joined hmain) (by simp [hstage])
  | acceptorLeaves hstage hpipe =>
      exact h.of_others (fun _ => .refl _) (fun _ => by simp [hstage, PoolAcceptor.inHand]) rfl
        h.clientsFirst h.drained fun _ => rfl
  | accepts fd clientIp hstage =>
      refine h.of_others (fun _ => .refl _) (fun number => ?_) rfl h.clientsFirst h.drained
        fun hmain => ?_
      · simp only [hstage, PoolAcceptor.inHand, occurrences_singleton, occurrences_nil]
        split_ifs <;> omega
      · exact absurd (h.joined hmain) (by simp [hstage])
  | acceptFails hstage =>
      refine h.of_others (fun _ => .refl _) (fun number => ?_) rfl h.clientsFirst h.drained
        fun hmain => ?_
      · simp [hstage, PoolAcceptor.inHand]
      · exact absurd (h.joined hmain) (by simp [hstage])
  | pushes hstage hnotify => exact (h.push hstage).notifyOne hnotify
  | pushesSentinels hmain hacceptor => exact h.pushSentinels hmain hacceptor
  | notifiesAll hmain =>
      refine h.of_others (fun w => sameWork_wake _) (fun _ => rfl) ?_ h.clientsFirst h.drained
        fun _ => h.joined (by simp [hmain])
      simp [queuedSentinels, hmain]
  | wakesUp hsleeping =>
      exact h.of_others (sameWork_setWorker s _) (fun _ => rfl) rfl h.clientsFirst h.drained
        h.joined

/-- While a worker sleeps, every entry of the queue has a worker that is about to look. -/
def Alert (s : ThreadPool n) : Prop :=
  s.main ≠ .notifying → ∀ w, (s.workers w).stage = .sleeping →
    s.queue.length ≤ total PoolWorker.checks s.workers

theorem Alert.of_update {s s' : ThreadPool n} (h : Alert s) {w : Fin n} {worker : PoolWorker}
    (hworkers : s'.workers = Function.update s.workers w worker) (hmain : s'.main = s.main)
    (hstage : worker.stage ≠ .sleeping)
    (hqueue : s'.queue.length + (s.workers w).checks ≤ s.queue.length + worker.checks) :
    Alert s' := by
  intro hnotifying v hsleeping
  have htotal := total_update PoolWorker.checks s.workers w worker
  rw [hworkers] at hsleeping ⊢
  by_cases hv : v = w
  · subst hv
    rw [Function.update_self] at hsleeping
    exact absurd hsleeping hstage
  · rw [Function.update_of_ne hv] at hsleeping
    have hbefore := h (hmain ▸ hnotifying) v hsleeping
    omega

theorem Alert.worker {s s' : ThreadPool n} (h : Alert s) {w : Fin n}
    (houtcome : WorkerOutcome s w s') : Alert s' := by
  cases houtcome with
  | sleeps hstage hempty =>
      intro _ _ _
      simp [setWorker, hempty]
  | takes hstage hqueue =>
      refine h.of_update rfl rfl nofun ?_
      simp [PoolWorker.checks, hstage, hqueue]
  | exits hstage | passes hstage | returns hstage | closes hstage =>
      refine h.of_update rfl rfl nofun ?_
      simp [setWorker, PoolWorker.checks, hstage]

/-- Waking a worker that sleeps makes up for one more entry. -/
theorem Alert.wakes {s s' : ThreadPool n} (h : Alert s) {w : Fin n}
    (hsleeping : (s.workers w).stage = .sleeping)
    (hworkers : s'.workers = Function.update s.workers w (wake (s.workers w)))
    (hmain : s'.main = s.main) (hqueue : s'.queue.length ≤ s.queue.length + 1) : Alert s' := by
  apply h.of_update hworkers hmain (by simp [wake, hsleeping])
  simpa [PoolWorker.checks, wake, hsleeping] using hqueue

theorem Alert.push {s s' : ThreadPool n} (h : Alert s) {client : Client} {woken : Option (Fin n)}
    (hnotify : { s with
      queue := s.queue ++ [QueueEntry.client client]
      acceptor := .selecting }.notifyOne woken = some s') : Alert s' := by
  cases woken with
  | none =>
      simp only [notifyOne] at hnotify
      split_ifs at hnotify with hnone
      cases hnotify
      exact fun _ w hsleeping => absurd hsleeping (hnone w)
  | some w =>
      simp only [notifyOne] at hnotify
      split_ifs at hnotify with hsleeping
      cases hnotify
      exact h.wakes hsleeping rfl rfl (by simp [setWorker])

theorem Alert.step {s s' : ThreadPool n} (h : Alert s) (houtcome : StepOutcome s s') :
    Alert s' := by
  cases houtcome with
  | worker houtcome => exact h.worker houtcome
  | pushes hstage hnotify => exact h.push hnotify
  | wakesUp hsleeping => exact h.wakes hsleeping rfl rfl (Nat.le_succ _)
  | notifiesAll hmain =>
      intro _ w hsleeping
      dsimp only at hsleeping
      unfold wake at hsleeping
      split_ifs at hsleeping with hslept
      exact absurd hsleeping hslept
  | pushesSentinels hmain hacceptor => exact fun hnotifying => absurd rfl hnotifying
  | entersShutdown | writesShutdown | endsInput | interrupted | fails | turns | isReady
  | acceptorLeaves | accepts | acceptFails => exact h

def AtRest (s : ThreadPool n) : Prop := ∀ w act, s.workerStep w act = none

theorem AtRest.stage {s : ThreadPool n} (h : AtRest s) (w : Fin n) :
    (s.workers w).stage = .sleeping ∨ (s.workers w).stage = .exited := by
  cases hstage : (s.workers w).stage with
  | sleeping => exact .inl rfl
  | exited => exact .inr rfl
  | checking =>
      have hnone := h w .check
      cases hqueue : s.queue <;> simp [workerStep, hstage, hqueue] at hnone
  | taken entry =>
      have hnone := h w .look
      cases entry <;> simp [workerStep, hstage] at hnone
  | handling client =>
      have hnone := h w .returns
      simp [workerStep, hstage] at hnone
  | closing client =>
      have hnone := h w .close
      simp [workerStep, hstage] at hnone

/-! ## What is drained -/

theorem AtRest.inHand {s : ThreadPool n} (h : AtRest s) (w : Fin n) :
    (s.workers w).stage.inHand = [] ∧ (s.workers w).stage.inService = [] := by
  rcases h.stage w with hw | hw <;> simp [hw, PoolStage.inHand, PoolStage.inService]

theorem AtRest.closed {s : ThreadPool n} (h : AtRest s) (haccounted : Accounted s)
    (hqueue : s.queue = []) (hacceptor : s.acceptor.inHand = []) {number : Nat}
    (hnumber : number < s.accepted) :
    ∃! w, occurrences number (s.workers w).closed = 1 := by
  have hplaced := haccounted.placed number
  rw [if_pos hnumber, places, hacceptor, hqueue] at hplaced
  have hone : total (PoolWorker.holds number) s.workers = 1 := by simpa [clientsOf] using hplaced
  obtain ⟨w, hw, hunique⟩ := existsUnique_of_total_eq_one hone
  have hholds v : (s.workers v).holds number = occurrences number (s.workers v).closed := by
    rw [PoolWorker.holds, (haccounted.orderly v).served, (h.inHand v).1, (h.inHand v).2]
    simp
  exact ⟨w, (hholds w).symm.trans hw, fun v hv => hunique v ((hholds v).trans hv)⟩

/-- After the sentinels were announced the workers rest only when they have left. -/
theorem AtRest.exited {s : ThreadPool n} (h : AtRest s) (haccounted : Accounted s)
    (hqueue : s.queue = []) (hmain : s.main = .joiningWorkers) (w : Fin n) :
    (s.workers w).stage = .exited := by
  have hsum := haccounted.sentinels
  rw [hqueue, queuedSentinels, if_neg (by simp [hmain])] at hsum
  have hle v : (s.workers v).sentinels ≤ 1 := by
    rw [(haccounted.orderly v).sentinels_eq]
    rcases h.stage v with hv | hv <;> simp [hv, PoolStage.sentinels]
  by_contra hne
  have hw : (s.workers w).sentinels = 0 := by
    rw [(haccounted.orderly w).sentinels_eq, (h.stage w).resolve_right hne]
    rfl
  have hlt : total PoolWorker.sentinels s.workers < ∑ _v : Fin n, 1 :=
    Finset.sum_lt_sum (fun v _ => hle v) ⟨w, Finset.mem_univ w, by omega⟩
  have hzero : sentinelsOf [] = 0 := rfl
  simp only [Finset.sum_const, Finset.card_univ, Fintype.card_fin, smul_eq_mul, mul_one] at hlt
  omega

end ThreadPool

end CppHttpd
