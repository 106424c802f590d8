import Mathlib
import ModRemap.Json.Reader
import ModRemap.Json.Writer
import ModRemap.Proofs.Utf8

/-! Strings and objects that have been written as JSON are read back, whatever characters they hold and
whatever follows them. -/

namespace ModRemap

namespace RawJson

open Utf8

theorem readTokens_byte {b : UInt8} (plain : 0x20 ≤ b ∧ b ≠ byteOf '"' ∧ b ≠ byteOf '\\')
    (s : Bytes) : readTokens (b :: s) = (readTokens s).map fun p => (.byte b :: p.1, p.2) := by
  rw [readTokens.eq_def]
  dsimp only
  rw [if_neg plain.2.1, if_neg (UInt8.not_lt.mpr plain.1), if_neg plain.2.2]
  cases readTokens s <;> rfl

theorem readTokens_bytes {bs : Bytes}
    (plain : ∀ b ∈ bs, 0x20 ≤ b ∧ b ≠ byteOf '"' ∧ b ≠ byteOf '\\') (s : Bytes) :
    readTokens (bs ++ s) = (readTokens s).map fun p => (bs.map .byte ++ p.1, p.2) := by
  induction bs with
  | nil => cases h : readTokens s <;> simp [h]
  | cons b bs ih =>
    obtain ⟨first, others⟩ := List.forall_mem_cons.mp plain
    rw [List.cons_append, readTokens_byte first, ih others, Option.map_map]
    rfl

/-- What a written character is read as: the bytes that it has, or its number. -/
def tokensOf (c : Char) : List Token :=
  if c.toNat < 0x20 ∧ c ∉ ['\x08', '\x0C', '\n', '\r', '\t'] then [.unit c.toNat]
  else (String.utf8EncodeChar c).map .byte

theorem unitOf?_hexDigits {n : ℕ} (control : n < 0x20) :
    unitOf? (byteOf '0') (byteOf '0') (byteOf (Json.hexDigit (n / 16)))
      (byteOf (Json.hexDigit (n % 16))) = some n := by
  have all : ∀ n < 0x20, unitOf? (byteOf '0') (byteOf '0') (byteOf (Json.hexDigit (n / 16)))
      (byteOf (Json.hexDigit (n % 16))) = some n := by decide
  exact all n control

theorem byteOf_inj {c d : Char} (small : c.toNat < 0x80) (same : byteOf c = byteOf d)
    (small' : d.toNat < 0x80) : c = d := by
  have number := congrArg UInt8.toNat same
  rw [byteOf, byteOf, UInt8.toNat_ofNat_of_lt' (small.trans (by decide)),
    UInt8.toNat_ofNat_of_lt' (small'.trans (by decide))] at number
  exact Char.toNat_inj.mp number

theorem readTokens_escaped {e b : UInt8} (known : escaped? e = some b) (s : Bytes) :
    readTokens (byteOf '\\' :: e :: s) = (readTokens s).map fun p => (.byte b :: p.1, p.2) := by
  have other : e ≠ byteOf 'u' := by
    rintro rfl
    exact nomatch (show escaped? (byteOf 'u') = none by decide).symm.trans known
  rw [readTokens.eq_def]
  dsimp only
  rw [if_neg (by decide), if_neg (by decide), if_pos rfl, if_neg other, known]
  cases readTokens s <;> rfl

theorem readTokens_unit {w x y z : UInt8} {u : ℕ} (known : unitOf? w x y z = some u) (s : Bytes) :
    readTokens (byteOf '\\' :: byteOf 'u' :: w :: x :: y :: z :: s) =
      (readTokens s).map fun p => (.unit u :: p.1, p.2) := by
  rw [readTokens.eq_def]
  dsimp only
  rw [if_neg (by decide), if_neg (by decide), if_pos rfl, if_pos rfl, known]
  cases readTokens s <;> rfl

theorem encode_hexDigit (n : ℕ) (small : n < 16) (s : List Char) :
    encode (Json.hexDigit n :: s) = byteOf (Json.hexDigit n) :: encode s := by
  have ascii : ∀ n < 16, (Json.hexDigit n).toNat < 0x80 := by decide
  rw [encode_cons, utf8EncodeChar_of_ascii (ascii n small)]
  rfl

theorem encode_controlEscape {c : Char} (control : c.toNat < 0x20) :
    encode ['\\', 'u', '0', '0', Json.hexDigit (c.toNat / 16), Json.hexDigit (c.toNat % 16)] =
      [byteOf '\\', byteOf 'u', byteOf '0', byteOf '0', byteOf (Json.hexDigit (c.toNat / 16)),
        byteOf (Json.hexDigit (c.toNat % 16))] := by
  show byteOf '\\' :: byteOf 'u' :: byteOf '0' :: byteOf '0' :: encode _ = _
  rw [encode_hexDigit _ (by omega), encode_hexDigit _ (by omega)]
  rfl

/-- A character that is written as it is has no byte that ends a string or begins an escape. -/
theorem plain_of_unescaped {c : Char} (control : ¬c.toNat < 0x20) (quote : c ≠ '"') (slash : c ≠ '\\') :
    ∀ b ∈ String.utf8EncodeChar c, 0x20 ≤ b ∧ b ≠ byteOf '"' ∧ b ≠ byteOf '\\' := by
  intro b inside
  by_cases ascii : c.toNat < 0x80
  · rw [utf8EncodeChar_of_ascii ascii, List.mem_singleton] at inside
    refine inside ▸ ⟨?_, ?_, ?_⟩
    · rw [UInt8.le_iff_toNat_le, UInt8.toNat_ofNat_of_lt' (ascii.trans (by decide))]
      exact Nat.not_lt.mp control
    · exact fun same => quote (byteOf_inj ascii same (by decide))
    · exact fun same => slash (byteOf_inj ascii same (by decide))
  · have high := le_of_mem_utf8EncodeChar (Nat.not_lt.mp ascii) inside
    refine ⟨?_, ?_, ?_⟩
    · exact UInt8.le_trans (by decide) high
    · rintro rfl
      exact absurd high (by decide)
    · rintro rfl
      exact absurd high (by decide)

theorem readTokens_escape (c : Char) (s : Bytes) :
    readTokens (encode (Json.escape c) ++ s) =
      (readTokens s).map fun p => (tokensOf c ++ p.1, p.2) := by
  unfold Json.escape
  split_ifs with quote slash back form line ret tab control
  · subst quote
    exact readTokens_escaped (by decide) s
  · subst slash
    exact readTokens_escaped (by decide) s
  · subst back
    exact readTokens_escaped (by decide) s
  · subst form
    exact readTokens_escaped (by decide) s
  · subst line
    exact readTokens_escaped (by decide) s
  · subst ret
    exact readTokens_escaped (by decide) s
  · subst tab
    exact readTokens_escaped (by decide) s
  · have unit : tokensOf c = [.unit c.toNat] := by
      rw [tokensOf, if_pos ⟨control, by simp [back, form, line, ret, tab]⟩]
    rw [unit, encode_controlEscape control]
    exact readTokens_unit (unitOf?_hexDigits control) s
  · have bytes : tokensOf c = (String.utf8EncodeChar c).map .byte := by
      rw [tokensOf, if_neg fun h => control h.1]
    rw [bytes]
    exact (congrArg (fun t => readTokens (t ++ s)) (List.append_nil _)).trans
      (readTokens_bytes (plain_of_unescaped control quote slash) s)

/-- The pieces of a character stand for its bytes. -/
theorem tokenBytes?_tokensOf (c : Char) (ts : List Token) :
    tokenBytes? (tokensOf c ++ ts) = (tokenBytes? ts).map (String.utf8EncodeChar c ++ ·) := by
  unfold tokensOf
  split_ifs with control
  · have single : ¬(0xD800 ≤ c.toNat ∧ c.toNat < 0xDC00) ∧
        ¬(0xDC00 ≤ c.toNat ∧ c.toNat < 0xE000) := by omega
    rw [List.singleton_append, tokenBytes?.eq_def]
    simp only [Bool.and_eq_true, decide_eq_true_eq, if_neg single.1, if_neg single.2,
      Char.ofNat_toNat]
  · generalize String.utf8EncodeChar c = bs
    induction bs with
    | nil =>
      rw [List.map_nil, List.nil_append]
      exact Option.map_id'.symm
    | cons b bs ih =>
      rw [List.map_cons, List.cons_append, tokenBytes?, ih, Option.map_map]
      rfl

/-- The rest of a string is read up to its closing quote. -/
theorem readString_escape (s : String) (rest : Bytes) :
    readString (encode (s.toList.flatMap Json.escape) ++ byteOf '"' :: rest) =
      some (some s, rest) := by
  have tokens (cs : List Char) : readTokens (encode (cs.flatMap Json.escape) ++ byteOf '"' :: rest) =
      some (cs.flatMap tokensOf, rest) := by
    induction cs with
    | nil =>
      show readTokens (byteOf '"' :: rest) = _
      rw [readTokens.eq_def]
      exact if_pos rfl
    | cons c cs ih =>
      rw [List.flatMap_cons, List.flatMap_cons, encode_append, List.append_assoc,
        readTokens_escape, ih]
      rfl
  have bytes (cs : List Char) : tokenBytes? (cs.flatMap tokensOf) = some (encode cs) := by
    induction cs with
    | nil => rfl
    | cons c cs ih =>
      rw [List.flatMap_cons, tokenBytes?_tokensOf, ih, encode_cons]
      rfl
  have text : textOf? (encode s.toList) = some s := by
    rw [textOf?, decode?_encode, Option.map_some, String.ofList_toList]
  rw [readString, tokens]
  show some ((tokenBytes? _).bind textOf?, rest) = _
  rw [bytes, Option.bind_some, text]

/-! ### Trees -/

theorem skipSpace_newline (level : ℕ) (s : Bytes) :
    skipSpace (encode (Json.newline level) ++ s) = skipSpace s := by
  have blanks (n : ℕ) : skipSpace (encode (List.replicate n ' ') ++ s) = skipSpace s := by
    induction n with
    | zero => rfl
    | succ n ih => exact ih
  exact blanks _

/-- The document, written at a level of indentation, is read as the tree whatever follows it. -/
structure ReadsBack (level : ℕ) (t : Json) (raw : RawJson) : Prop where
  solid : ∀ rest, skipSpace (encode (Json.prettyChars level t) ++ rest) =
    encode (Json.prettyChars level t) ++ rest
  read : ∀ n rest, (encode (Json.prettyChars level t)).length ≤ n →
    readTree n (encode (Json.prettyChars level t) ++ rest) = some (raw, rest)

theorem encode_quote (s : String) (rest : Bytes) : encode (Json.quote s) ++ rest =
    byteOf '"' :: (encode (s.toList.flatMap Json.escape) ++ byteOf '"' :: rest) := by
  rw [Json.quote, List.cons_append, encode_cons, encode_append, List.append_assoc, List.append_assoc]
  rfl

theorem readsBack_string (level : ℕ) (s : String) :
    ReadsBack level (.string s) (.string (some s)) := by
  have written : Json.prettyChars level (.string s) = Json.quote s := by rw [Json.prettyChars]
  refine ⟨fun rest => ?_, fun n rest enough => ?_⟩
  · rw [written, encode_quote]
    rfl
  · rw [written] at enough ⊢
    have long : 0 < (encode (Json.quote s)).length := by
      rw [← List.append_nil (encode (Json.quote s)), encode_quote, List.length_cons]
      exact Nat.succ_pos _
    obtain ⟨n, rfl⟩ := Nat.exists_eq_succ_of_ne_zero (long.trans_le enough).ne'
    rw [encode_quote, readTree.eq_def]
    dsimp only
    rw [if_pos rfl, readString_escape]
    rfl

/-- A member without the separator before it. -/
def memberChars (level : ℕ) (k : String) (t : Json) : List Char :=
  Json.quote k ++ ':' :: ' ' :: Json.prettyChars level t

theorem length_memberChars (level : ℕ) (k : String) (t : Json) :
    (encode (Json.prettyChars level t)).length + 2 ≤ (encode (memberChars level k t)).length := by
  have marks : encode (':' :: ' ' :: Json.prettyChars level t) =
      byteOf ':' :: byteOf ' ' :: encode (Json.prettyChars level t) := rfl
  rw [memberChars, encode_append, marks]
  simp only [List.length_append, List.length_cons]
  omega

theorem skipSpace_member (level : ℕ) (k : String) (t : Json) (rest : Bytes) :
    skipSpace (encode (Json.newline level) ++ (encode (memberChars level k t) ++ rest)) =
      encode (memberChars level k t) ++ rest := by
  rw [skipSpace_newline, memberChars, encode_append, List.append_assoc, encode_quote]
  rfl

theorem readMembers_member {n level : ℕ} {t : Json} {raw : RawJson} (back : ReadsBack level t raw)
    (enough : (encode (Json.prettyChars level t)).length ≤ n) {start : Bool} {b : UInt8} {k : String}
    {s tail : Bytes} (brace : b ≠ byteOf '\x7d')
    (member : (if start then some (b :: s) else if b = byteOf ',' then some (skipSpace s) else none) =
      some (encode (memberChars level k t) ++ tail)) :
    readMembers (n + 1) start (b :: s) =
      (readMembers n false (skipSpace tail)).map fun p => ((some k, raw) :: p.1, p.2) := by
  have written : encode (memberChars level k t) ++ tail = byteOf '"' ::
      (encode (k.toList.flatMap Json.escape) ++ byteOf '"' :: byteOf ':' :: 0x20 ::
        (encode (Json.prettyChars level t) ++ tail)) := by
    rw [memberChars, encode_append, List.append_assoc, encode_quote]
    rfl
  have open_ (u : Bytes) : dropBytes? [byteOf '"'] (byteOf '"' :: u) = some u := rfl
  have colon (u : Bytes) : dropBytes? [byteOf ':'] (skipSpace (byteOf ':' :: u)) = some u := rfl
  have blank (u : Bytes) : skipSpace (0x20 :: u) = skipSpace u := rfl
  rw [readMembers.eq_def]
  dsimp only
  rw [if_neg brace]
  split_ifs at member ⊢ with first comma
  all_goals
    rw [Option.some.inj member, written]
    simp only [open_, colon, blank, readString_escape, back.solid, back.read n tail enough, bind,
      Option.bind_some]
    cases readMembers n false (skipSpace tail) <;> rfl

theorem readMembers_first {n level : ℕ} {t : Json} {raw : RawJson} (back : ReadsBack level t raw)
    (enough : (encode (Json.prettyChars level t)).length ≤ n) (k : String) (tail : Bytes) :
    readMembers (n + 1) true (encode (memberChars level k t) ++ tail) =
      (readMembers n false (skipSpace tail)).map fun p => ((some k, raw) :: p.1, p.2) := by
  obtain ⟨s, written⟩ : ∃ s, encode (memberChars level k t) ++ tail = byteOf '"' :: s := by
    rw [memberChars, encode_append, List.append_assoc, encode_quote]
    exact ⟨_, rfl⟩
  have member := congrArg some written.symm
  rw [written]
  exact readMembers_member back enough (by decide) ((if_pos rfl).trans member)

theorem readMembers_next {n level : ℕ} {t : Json} {raw : RawJson} (back : ReadsBack level t raw)
    (enough : (encode (Json.prettyChars level t)).length ≤ n) (k : String) (tail : Bytes) :
    readMembers (n + 1) false (byteOf ',' :: (encode (Json.newline level) ++
        (encode (memberChars level k t) ++ tail))) =
      (readMembers n false (skipSpace tail)).map fun p => ((some k, raw) :: p.1, p.2) := by
  have member := congrArg some (skipSpace_member level k t tail)
  exact readMembers_member back enough (by decide)
    ((if_neg Bool.false_ne_true).trans ((if_pos rfl).trans member))

theorem readMembers_pretty {level n : ℕ} {members : List (String × Json)}
    {raws : List (Option String × RawJson)} (rest : Bytes)
    (back : List.Forall₂ (fun p q => q.1 = some p.1 ∧ ReadsBack (level + 1) p.2 q.2) members raws)
    (enough : (encode (Json.prettyMembers level members)).length ≤ n) :
    readMembers n false (skipSpace (encode (Json.prettyMembers level members) ++ rest)) =
      some (raws, rest) := by
  induction back generalizing n with
  | nil =>
    have written : encode (Json.prettyMembers level []) ++ rest =
        encode (Json.newline level) ++ byteOf '\x7d' :: rest := by
      rw [Json.prettyMembers, encode_append, List.append_assoc]
      rfl
    have long : 0 < (encode (Json.prettyMembers level [])).length := by
      rw [Json.prettyMembers, encode_append, List.length_append]
      exact Nat.succ_pos _
    obtain ⟨n, rfl⟩ := Nat.exists_eq_succ_of_ne_zero (long.trans_le enough).ne'
    rw [written, skipSpace_newline]
    show readMembers _ _ (byteOf '\x7d' :: rest) = _
    rw [readMembers.eq_def]
    exact if_pos rfl
  | cons first others ih =>
    rename_i p q members raws
    obtain ⟨k, t⟩ := p
    obtain ⟨key, raw⟩ := q
    obtain ⟨rfl, back⟩ : key = some k ∧ ReadsBack (level + 1) t raw := first
    have written : encode (Json.prettyMembers level ((k, t) :: members)) = byteOf ',' ::
        (encode (Json.newline (level + 1)) ++ (encode (memberChars (level + 1) k t) ++
          encode (Json.prettyMembers level members))) := by
      rw [Json.prettyMembers, memberChars]
      simp only [encode_cons, encode_append, List.append_assoc, List.cons_append]
      rfl
    have value := length_memberChars (level + 1) k t
    rw [written] at enough
    simp only [List.length_cons, List.length_append] at enough
    obtain ⟨n, rfl⟩ := Nat.exists_eq_succ_of_ne_zero ((Nat.succ_pos _).trans_le enough).ne'
    rw [written]
    simp only [List.cons_append, List.append_assoc]
    show readMembers _ _ (byteOf ',' :: _) = _
    rw [readMembers_next back (by omega), ih (by omega)]
    rfl

/-- An object is read back when its values are. -/
theorem readsBack_object {level : ℕ} {members : List (String × Json)}
    {raws : List (Option String × RawJson)}
    (back : List.Forall₂ (fun p q => q.1 = some p.1 ∧ ReadsBack (level + 1) p.2 q.2) members raws) :
    ReadsBack level (.object members) (.object raws) := by
  cases back with
  | nil =>
    have written : encode (Json.prettyChars level (.object [])) = [byteOf '\x7b', byteOf '\x7d'] := by
      rw [Json.prettyChars]
      rfl
    refine ⟨fun rest => ?_, fun n rest enough => ?_⟩
    · rw [written]
      rfl
    · rw [written] at enough ⊢
      obtain ⟨n, rfl⟩ := Nat.exists_eq_add_of_le' enough
      have nothing : readMembers (n + 1) true (byteOf '\x7d' :: rest) = some ([], rest) := by
        rw [readMembers.eq_def]
        exact if_pos rfl
      show readTree (n + 2) (byteOf '\x7b' :: byteOf '\x7d' :: rest) = _
      rw [readTree.eq_def]
      dsimp only
      rw [if_neg (by decide), if_neg (by decide), if_pos rfl]
      exact congrArg (Option.map fun p => (JsonTree.object p.1, p.2)) nothing
  | cons first others =>
    rename_i p q members raws
    obtain ⟨k, t⟩ := p
    obtain ⟨key, raw⟩ := q
    obtain ⟨rfl, back⟩ : key = some k ∧ ReadsBack (level + 1) t raw := first
    have written : encode (Json.prettyChars level (.object ((k, t) :: members))) = byteOf '\x7b' ::
        (encode (Json.newline (level + 1)) ++ (encode (memberChars (level + 1) k t) ++
          encode (Json.prettyMembers level members))) := by
      rw [Json.prettyChars, memberChars]
      simp only [encode_cons, encode_append, List.append_assoc, List.cons_append]
      rfl
    have value := length_memberChars (level + 1) k t
    refine ⟨fun rest => ?_, fun n rest enough => ?_⟩
    · rw [written]
      rfl
    · rw [written] at enough ⊢
      simp only [List.length_cons, List.length_append] at enough
      obtain ⟨n, rfl⟩ := Nat.exists_eq_add_of_le' (by omega : 2 ≤ n)
      simp only [List.cons_append, List.append_assoc]
      rw [readTree.eq_def]
      dsimp only
      rw [if_neg (by decide), if_neg (by decide), if_pos rfl, skipSpace_member,
        readMembers_first back (by omega), readMembers_pretty rest others (by omega)]
      rfl

theorem parse?_pretty {t : Json} {raw : RawJson} (back : ReadsBack 0 t raw) :
    parse? (bytesOf t.pretty) = some raw := by
  have whole := back.read (2 * (bytesOf t.pretty).length + 2) []
  rw [List.append_nil] at whole
  have bytes : bytesOf t.pretty = encode (Json.prettyChars 0 t) := by
    rw [bytesOf, Json.pretty, String.toList_ofList]
  have solid := back.solid []
  rw [List.append_nil] at solid
  rw [bytes] at whole ⊢
  rw [parse?, solid, whole (by omega)]
  rfl

end RawJson
end ModRemap
