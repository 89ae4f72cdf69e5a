import CppHttpd.Http.Core.ResponseDecoder
import CppHttpd.Http.Handlers.StaticFileHandler
import CppHttpd.Os.Formatting

/-!
# Versions of a file

An entity tag is made of three numbers of 64 bits, two of which have a sign that
the conversion to hexadecimal does not write.
-/

namespace CppHttpd

open CppHttpd.Foundation

/-- The members of `struct stat` that an entity tag is made of, as wide as they are. -/
structure FileVersion where
  ino : UInt64
  size : Int64
  mtime : Int64
  deriving DecidableEq

namespace FileVersion

/-- `%lx` and `%llx` of a number that is cast to an unsigned one. -/
def hexNumber (n : UInt64) : Bytes := HttpResponse.toHex n.toNat

def etagText (v : FileVersion) : Bytes :=
  ascii "\"" ++ hexNumber v.ino ++ ascii "-" ++ hexNumber v.size.toUInt64 ++ ascii "-" ++
    hexNumber v.mtime.toUInt64 ++ ascii "\""

/-- `StaticFileHandler::generate_etag`, which formats into a buffer of 64 bytes. -/
def generateEtag (v : FileVersion) : Bytes := snprintf 64 v.etagText

example : generateEtag ⟨1, 2, -1⟩ = ascii "\"1-2-ffffffffffffffff\"" := by decide

/-! ## The limit of the buffer -/

theorem length_hexNumber_le (n : UInt64) : (hexNumber n).length ≤ 16 :=
  length_toHex_le (by decide) n.toNat_lt

theorem length_etagText_le (v : FileVersion) : v.etagText.length ≤ 52 := by
  have hino := length_hexNumber_le v.ino
  have hsize := length_hexNumber_le v.size.toUInt64
  have hmtime := length_hexNumber_le v.mtime.toUInt64
  have hdash : (ascii "-").length = 1 := rfl
  have hquote : (ascii "\"").length = 1 := rfl
  simp only [etagText, List.length_append, hdash, hquote]
  omega

theorem generateEtag_eq_text (v : FileVersion) : v.generateEtag = v.etagText :=
  snprintf_of_lt ((length_etagText_le v).trans_lt (by decide))

/-! ## The numbers are read back -/

theorem hexNumber_injective : Function.Injective hexNumber := by
  intro m n h
  have hvalue : some m.toNat = some n.toNat := by
    rw [← hexValueFrom_toHex m.toNat, ← hexValueFrom_toHex n.toNat]
    exact congrArg _ h
  exact UInt64.toNat_inj.1 (Option.some.inj hvalue)

theorem not_mem_hexNumber {c : Byte} (hc : hexDigitValue c = none) (n : UInt64) :
    c ∉ hexNumber n := not_mem_toHex hc n.toNat

theorem etagText_injective : Function.Injective etagText := by
  intro v w h
  have hdash : ∀ n, DASH ∉ hexNumber n := not_mem_hexNumber (by decide)
  have hquote : ∀ n, byteOf '"' ∉ hexNumber n := not_mem_hexNumber (by decide)
  have hcut : ascii "-" = [DASH] := rfl
  have hend : ascii "\"" = [byteOf '"'] := rfl
  simp only [etagText, hcut, hend, List.append_assoc, List.cons_append, List.nil_append,
    List.cons.injEq, true_and] at h
  obtain ⟨hino, h⟩ := append_cons_inj (hdash _) (hdash _) h
  obtain ⟨hsize, h⟩ := append_cons_inj (hdash _) (hdash _) h
  obtain ⟨hmtime, -⟩ := append_cons_inj (hquote _) (hquote _) h
  have hsigned : Function.Injective Int64.toUInt64 :=
    Function.LeftInverse.injective Int64.toInt64_toUInt64
  cases v
  cases w
  congr
  · exact hexNumber_injective hino
  · exact hsigned (hexNumber_injective hsize)
  · exact hsigned (hexNumber_injective hmtime)

/--
Two versions of files have one entity tag only if they are the same, and the text
of the tag leaves at least one byte of the buffer for the NUL behind it.
-/
theorem generateEtag_identifies :
    (∀ v w : FileVersion, v.generateEtag = w.generateEtag ↔ v = w) ∧
      ∀ v : FileVersion, v.etagText.length < 64 ∧ v.generateEtag = v.etagText := by
  refine ⟨fun v w => ⟨fun h => ?_, congrArg _⟩, fun v => ?_⟩
  · rw [generateEtag_eq_text, generateEtag_eq_text] at h
    exact etagText_injective h
  · exact ⟨(length_etagText_le v).trans_lt (by decide), generateEtag_eq_text v⟩

end FileVersion

/-! ## The tags of the handler -/

def Stat.version (st : Stat) : FileVersion where
  ino := .ofNat st.ino
  size := .ofNat st.size
  mtime := .ofInt st.mtime

/-- The numbers are such as the members of `struct stat` hold. -/
structure Stat.Wide (st : Stat) : Prop where
  ino : st.ino < 2 ^ 64
  size : st.size < 2 ^ 63
  mtime : -2 ^ 63 ≤ st.mtime ∧ st.mtime < 2 ^ 63

section

variable {st other : Stat}

theorem generateEtag_eq_version (h : st.Wide) : generateEtag st = st.version.generateEtag := by
  have hino : st.version.ino.toNat = st.ino := UInt64.toNat_ofNat_of_lt h.ino
  have hsize : st.version.size.toUInt64.toNat = st.size :=
    UInt64.toNat_ofNat_of_lt (h.size.trans (by decide))
  have hmtime : st.version.mtime.toUInt64.toNat = (st.mtime % 2 ^ 64).toNat :=
    BitVec.toNat_ofInt st.mtime
  rw [FileVersion.generateEtag_eq_text]
  simp only [generateEtag, FileVersion.etagText, FileVersion.hexNumber, hino, hsize, hmtime]

theorem Stat.Wide.version (h : st.Wide) :
    st.version.ino.toNat = st.ino ∧ st.version.size.toInt = st.size ∧
      st.version.mtime.toInt = st.mtime :=
  ⟨UInt64.toNat_ofNat_of_lt h.ino, Int64.toInt_ofNat_of_lt h.size,
    Int64.toInt_ofInt_of_le h.mtime.1 h.mtime.2⟩

theorem version_eq_iff (h : st.Wide) (hother : other.Wide) :
    st.version = other.version ↔
      st.ino = other.ino ∧ st.size = other.size ∧ st.mtime = other.mtime := by
  constructor
  · intro heq
    obtain ⟨hino, hsize, hmtime⟩ := h.version
    obtain ⟨hino', hsize', hmtime'⟩ := hother.version
    rw [heq] at hino hsize hmtime
    exact ⟨hino.symm.trans hino', Int.ofNat_inj.1 (hsize.symm.trans hsize'),
      hmtime.symm.trans hmtime'⟩
  · rintro ⟨hino, hsize, hmtime⟩
    simp only [Stat.version, hino, hsize, hmtime]

end

end CppHttpd
