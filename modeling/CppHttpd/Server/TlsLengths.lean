import CppHttpd.Server.Tls
import Mathlib.Algebra.Order.Ring.Int

/-!
# Lengths that `SSL_write` is called with

`ssl_write_all` narrows what is left of a buffer to an `int` at each call.  Up to
`INT_MAX` bytes that is the number itself; above it some call asks for nothing,
or for less than nothing.
-/

namespace CppHttpd

open CppHttpd.Foundation

def INT_MAX : Nat := 2147483647

/-- A call of `SSL_write`: the bytes that are left, and the length that is passed. -/
structure SslWriteCall where
  remaining : Nat
  length : Int

/-- The calls that `ssl_write_all` makes over these answers. -/
def sslWriteCalls (data : Bytes) : List TlsAnswer → List SslWriteCall
  | [] => if data = [] then [] else [⟨data.length, castInt data.length⟩]
  | answer :: rest =>
      if data = [] then []
      else
        ⟨data.length, castInt data.length⟩ ::
          match answer with
          | .sslWrite (.ok n) =>
              if 0 < n ∧ (n : Int) ≤ castInt data.length then sslWriteCalls (data.drop n) rest
              else []
          | .sslWrite (.error error) =>
              if error = .wantWrite then sslWriteCalls data rest else []
          | .fileRead _ => []

/--
Results of `SSL_write`, each between one and the length asked for, until there is
nothing left to write or no such result is possible.
-/
inductive Accepting : Bytes → List TlsAnswer → Prop
  | written (rest : List TlsAnswer) : Accepting [] rest
  | impossible {data : Bytes} (rest : List TlsAnswer) (hne : data ≠ [])
      (hlength : castInt data.length ≤ 0) : Accepting data rest
  | accepted {data : Bytes} {n : Nat} {rest : List TlsAnswer} (hpos : 0 < n)
      (hn : (n : Int) ≤ castInt data.length) (hrest : Accepting (data.drop n) rest) :
      Accepting data (.sslWrite (.ok n) :: rest)

def SslWriteCall.InRange (call : SslWriteCall) : Prop :=
  1 ≤ call.length ∧ call.length ≤ min call.remaining INT_MAX

/-- The buffer is passed on whole, by calls whose lengths are in range. -/
def Delivers (data : Bytes) (answers : List TlsAnswer) : Prop :=
  (∀ call ∈ sslWriteCalls data answers, call.InRange) ∧
    (sslWriteAll data answers).1 = true ∧ (sslWriteAll data answers).2.bytes = data

/-! ## Narrowing -/

theorem castInt_eq (n : Nat) :
    castInt n = if n % 2 ^ 32 < 2 ^ 31 then ((n % 2 ^ 32 : Nat) : Int)
      else ((n % 2 ^ 32 : Nat) : Int) - 2 ^ 32 := by
  unfold castInt
  rw [Int.bmod_def]
  split_ifs
  all_goals omega

theorem castInt_of_le {n : Nat} (hn : n ≤ INT_MAX) : castInt n = n := by
  rw [INT_MAX] at hn
  rw [castInt_eq, if_pos (by omega)]
  omega

theorem castInt_le (n : Nat) : castInt n ≤ n := by
  rw [castInt_eq]
  split_ifs
  all_goals omega

theorem castInt_lt (n : Nat) : castInt n < 2 ^ 31 := by
  rw [castInt_eq]
  split_ifs
  all_goals omega

/-- What is left after a call that was answered in full is narrowed to zero. -/
theorem castInt_sub {n : Nat} (hn : 0 ≤ castInt n) : castInt (n - (castInt n).toNat) = 0 := by
  rw [castInt_eq n] at hn ⊢
  rw [castInt_eq]
  split_ifs
  all_goals omega

theorem inRange_iff (n : Nat) : (SslWriteCall.mk n (castInt n)).InRange ↔ 0 < castInt n := by
  have hle := castInt_le n
  have hlt := castInt_lt n
  simp only [SslWriteCall.InRange, INT_MAX]
  omega

/-! ## Delivery -/

theorem delivers_of_le {data : Bytes} {answers : List TlsAnswer} (h : Accepting data answers)
    (hlen : data.length ≤ INT_MAX) : Delivers data answers := by
  induction h with
  | written rest => cases rest <;> simp [Delivers, sslWriteCalls, sslWriteAll]
  | impossible rest hne hlength =>
      have hpos := List.length_pos_iff.2 hne
      rw [castInt_of_le hlen] at hlength
      omega
  | @accepted data n rest hpos hn hrest ih =>
      have hcast := castInt_of_le hlen
      have hne : data ≠ [] := by
        rintro rfl
        rw [hcast, List.length_nil] at hn
        omega
      have hleft : (data.drop n).length ≤ INT_MAX := by
        rw [List.length_drop]
        omega
      obtain ⟨hcalls, hok, hbytes⟩ := ih hleft
      refine ⟨?_, ?_, ?_⟩
      · rw [sslWriteCalls, if_neg hne]
        simp only [hpos, hn, and_self, if_true]
        exact List.forall_mem_cons.2 ⟨(inRange_iff _).2 (by omega), hcalls⟩
      · simpa [sslWriteAll, hne, hpos, hn] using hok
      · simp only [sslWriteAll, hne, hpos, hn, and_self, if_true, if_false]
        rw [hbytes, List.take_append_drop]

theorem exists_call_out_of_range {data : Bytes} (hlen : INT_MAX < data.length) :
    ∃ answers, Accepting data answers ∧
      ∃ call ∈ sslWriteCalls data answers, ¬ call.InRange := by
  have hne : data ≠ [] := List.ne_nil_of_length_pos (by omega)
  by_cases hpos : castInt data.length ≤ 0
  · refine ⟨[], .impossible [] hne hpos, ⟨data.length, castInt data.length⟩, ?_, ?_⟩
    · simp [sslWriteCalls, hne]
    · rw [inRange_iff]
      omega
  · -- the first call is answered in full
    obtain ⟨n, hn⟩ : ∃ n : Nat, (n : Int) = castInt data.length :=
      ⟨(castInt data.length).toNat, by omega⟩
    have hmax := castInt_lt data.length
    have hzero : castInt (data.drop n).length = 0 := by
      have hnat : n = (castInt data.length).toNat := by omega
      rw [List.length_drop, hnat]
      exact castInt_sub (by omega)
    have hleft : data.drop n ≠ [] := by
      apply List.ne_nil_of_length_pos
      rw [INT_MAX] at hlen
      rw [List.length_drop]
      omega
    refine ⟨[.sslWrite (.ok n)],
      .accepted (by omega) hn.le (.impossible [] hleft hzero.le),
      ⟨(data.drop n).length, castInt (data.drop n).length⟩, ?_, ?_⟩
    · have hcond : 0 < n ∧ (n : Int) ≤ castInt data.length := ⟨by omega, hn.le⟩
      rw [sslWriteCalls, if_neg hne, if_pos hcond, sslWriteCalls, if_neg hleft]
      exact List.mem_cons_of_mem _ List.mem_cons_self
    · rw [inRange_iff]
      omega

theorem not_delivers {data : Bytes} (hlen : INT_MAX < data.length) :
    ¬ ∀ answers, Accepting data answers → Delivers data answers := by
  intro hall
  obtain ⟨answers, haccepting, call, hcall, hrange⟩ := exists_call_out_of_range hlen
  exact hrange ((hall answers haccepting).1 call hcall)

/-- A buffer is delivered over every such sequence of results exactly up to `INT_MAX` bytes. -/
theorem sslWriteAll_delivers_iff (data : Bytes) :
    (∀ answers, Accepting data answers → Delivers data answers) ↔ data.length ≤ INT_MAX := by
  constructor
  · intro hall
    by_contra hlen
    exact not_delivers (by omega) hall
  · exact fun hlen answers haccepting => delivers_of_le haccepting hlen

/-- The output of a script, `2 ^ 32` bytes of it: the first call asks for nothing. -/
theorem sslWriteAll_not_delivers :
    ¬ ∀ data answers, Accepting data answers → Delivers data answers := by
  intro hall
  have hlen : INT_MAX < (List.replicate (2 ^ 32) NUL : Bytes).length := by
    rw [List.length_replicate, INT_MAX]
    omega
  exact not_delivers hlen (hall _)

end CppHttpd
