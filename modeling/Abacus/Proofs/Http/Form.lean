import Abacus.Http.Message
import Mathlib.Data.List.TakeWhile

/-!
# Forms — a plain pair is read as it is written

Characters of ASCII without a meaning of their own in a target stand for themselves, and so a query of
one pair of them has that pair (`pairs_of_plain`).
-/

namespace Abacus

namespace Text

/-- A text without the mark is one piece. -/
theorem pieces_of_not_mem {mark : Char} {text : List Char} (h : mark ∉ text) :
    pieces mark text = [text] := by
  induction text with
  | nil => rfl
  | cons c rest ih =>
      obtain ⟨hc, hrest⟩ := not_or.mp (fun hmem => h (List.mem_cons.mpr hmem))
      rw [pieces, if_neg (by simpa using Ne.symm hc), ih hrest]
      rfl

/-- A byte below the others is the character with its number. -/
theorem decodeUtf8_ascii {c : Char} (h : c.toNat < 128) (rest : List UInt8) :
    decodeUtf8 (String.utf8EncodeChar c ++ rest) = c :: decodeUtf8 rest := by
  have hencode : String.utf8EncodeChar c = [UInt8.ofNat c.toNat] :=
    if_pos (Nat.le_of_lt_succ h)
  have hbyte : (UInt8.ofNat c.toNat).toNat = c.toNat := Nat.mod_eq_of_lt (Nat.lt_trans h (by decide))
  have hless : UInt8.ofNat c.toNat < 0x80 := by
    rw [UInt8.lt_iff_toNat_lt, hbyte]
    exact h
  rw [hencode, List.singleton_append, decodeUtf8, if_pos hless, hbyte, Char.ofNat_toNat]

end Text

namespace Http

/-- The characters with a meaning of their own in a target. -/
def marks : List Char := ['+', '%', '&', '=', '#', '?']

/-- The character stands for itself wherever it comes in a target. -/
def isPlain (c : Char) : Bool :=
  c.toNat < 128 && !marks.contains c

theorem isPlain_iff {c : Char} : isPlain c = true ↔ c.toNat < 128 ∧ c ∉ marks := by
  simp [isPlain]

theorem isPlain_of_isDigit {c : Char} (h : c.isDigit = true) : isPlain c = true := by
  have hbounds : 0x30 ≤ c.toNat ∧ c.toNat ≤ 0x39 := Char.isDigit_iff_toNat.mp h
  have hmarks : marks.all (fun mark => !mark.isDigit) = true := by decide
  refine isPlain_iff.mpr ⟨by omega, fun hmem => ?_⟩
  have hother := List.all_eq_true.mp hmarks c hmem
  rw [h] at hother
  exact Bool.false_ne_true hother

/-- A mark is not among plain characters. -/
theorem not_mem_of_plain {mark : Char} (hmark : mark ∈ marks) {written : List Char}
    (h : ∀ c ∈ written, isPlain c = true) : mark ∉ written :=
  fun hmem => (isPlain_iff.mp (h mark hmem)).2 hmark

namespace Form

/-- Plain characters stand for themselves. -/
theorem text_of_plain {written : List Char} (h : ∀ c ∈ written, isPlain c = true) :
    text written = String.ofList written := by
  rw [text]
  congr 1
  induction written with
  | nil => rw [bytes, Text.decodeUtf8]
  | cons c rest ih =>
      obtain ⟨hc, hrest⟩ := List.forall_mem_cons.mp h
      obtain ⟨hascii, hother⟩ := isPlain_iff.mp hc
      have hbytes : bytes (c :: rest) = String.utf8EncodeChar c ++ bytes rest := by
        rw [bytes.eq_def]
        split
        · next heq => exact absurd heq (List.cons_ne_nil c rest)
        · next heq =>
          obtain ⟨rfl, -⟩ := List.cons.inj heq
          exact absurd hother (by simp [marks])
        · next heq =>
          obtain ⟨rfl, -⟩ := List.cons.inj heq
          exact absurd hother (by simp [marks])
        · next heq =>
          obtain ⟨rfl, rfl⟩ := List.cons.inj heq
          rfl
      rw [hbytes, Text.decodeUtf8_ascii hascii, ih hrest]

/-- A query of one plain pair has that pair. -/
theorem pairs_of_plain {name value : List Char} (hname : ∀ c ∈ name, isPlain c = true)
    (hvalue : ∀ c ∈ value, isPlain c = true) :
    pairs (name ++ '=' :: value) = [(String.ofList name, String.ofList value)] := by
  have hand : '&' ∉ name ++ '=' :: value := by
    have hmark : '&' ∈ marks := by decide
    simp [not_mem_of_plain hmark hname, not_mem_of_plain hmark hvalue]
  have hbefore : ∀ c ∈ name, (c != '=') = true := by
    intro c hc
    rw [bne_iff_ne]
    rintro rfl
    exact not_mem_of_plain (by decide) hname hc
  have htake : (name ++ '=' :: value).takeWhile (· != '=') = name := by
    rw [List.takeWhile_append_of_pos hbefore]
    exact List.append_nil name
  have hdrop : (name ++ '=' :: value).dropWhile (· != '=') = '=' :: value := by
    rw [List.dropWhile_append_of_pos hbefore]
    rfl
  have hsome : ([name ++ '=' :: value].filter fun piece => !piece.isEmpty) =
      [name ++ '=' :: value] := by
    cases name <;> rfl
  rw [pairs, Text.pieces_of_not_mem hand, hsome, List.map_cons, List.map_nil, pair, htake, hdrop,
    List.drop_succ_cons, List.drop_zero, text_of_plain hname, text_of_plain hvalue]

end Form

namespace Request

variable {request : Request} {path query : List Char}

/-- A target that begins with its path has no host. -/
theorem localTarget_of_slash {rest : List Char} (h : request.target.toList = '/' :: rest) :
    request.localTarget = request.target.toList := by
  rw [localTarget, h]
  rfl

/-- The path ends where the query begins. -/
theorem path_of_target (h : request.target.toList = '/' :: path ++ '?' :: query)
    (hpath : ∀ c ∈ path, isPlain c = true) : request.path = String.ofList ('/' :: path) := by
  have hinside : ∀ c ∈ '/' :: path, (c != '?' && c != '#') = true := by
    refine List.forall_mem_cons.mpr ⟨rfl, fun c hc => ?_⟩
    rw [Bool.and_eq_true, bne_iff_ne, bne_iff_ne]
    refine ⟨?_, ?_⟩
    · rintro rfl
      exact not_mem_of_plain (by decide) hpath hc
    · rintro rfl
      exact not_mem_of_plain (by decide) hpath hc
  have htake : request.localTarget.takeWhile (fun c => c != '?' && c != '#') = '/' :: path := by
    rw [localTarget_of_slash h, h, List.takeWhile_append_of_pos hinside]
    exact List.append_nil _
  rw [Request.path, htake]

/-- The query goes on to the end of the target if nothing follows it. -/
theorem query_of_target (h : request.target.toList = '/' :: path ++ '?' :: query)
    (hpath : ∀ c ∈ path, isPlain c = true) (hquery : '#' ∉ query) : request.query = query := by
  have hbefore : ∀ c ∈ '/' :: path, (c != '?') = true := by
    refine List.forall_mem_cons.mpr ⟨rfl, fun c hc => ?_⟩
    rw [bne_iff_ne]
    rintro rfl
    exact not_mem_of_plain (by decide) hpath hc
  have hinside : ∀ c ∈ '/' :: path ++ '?' :: query, (c != '#') = true := by
    intro c hc
    rw [bne_iff_ne]
    rintro rfl
    rcases List.mem_append.mp hc with hc | hc
    · rcases List.mem_cons.mp hc with heq | hc
      · exact absurd heq (by decide)
      · exact not_mem_of_plain (by decide) hpath hc
    · rcases List.mem_cons.mp hc with heq | hc
      · exact absurd heq (by decide)
      · exact hquery hc
  have htake : request.localTarget.takeWhile (· != '#') = '/' :: path ++ '?' :: query := by
    rw [localTarget_of_slash h, h]
    exact List.takeWhile_eq_self_iff.mpr hinside
  have hdrop : ('/' :: path ++ '?' :: query).dropWhile (· != '?') = '?' :: query := by
    rw [List.dropWhile_append_of_pos hbefore]
    rfl
  rw [Request.query, htake, hdrop]

end Request

end Http

end Abacus
