import Mathlib
import ModRemap.AccessWidener
import ModRemap.ClassFile.Basic
import ModRemap.Proofs.Reader
import ModRemap.Refmap

/-! Bytes have one format at most: what reads as a class is neither a reference map nor an access
widener, and no reference map is an access widener. -/

namespace ModRemap

namespace ClassFile

theorem readFront_eq_ok {bytes rest : Bytes} {c : ClassFile} (h : readFront bytes = .ok (c, rest)) :
    ∃ s, bytes = Bytes.ofU4 magic ++ s := by
  unfold readFront at h
  obtain ⟨m, s, word, h⟩ := stateT_bind_eq_ok.mp h
  by_cases same : m = magic
  · exact ⟨s, same ▸ Reader.u4_eq_ok word⟩
  · rw [if_pos same] at h
    obtain ⟨_, _, failed, _⟩ := stateT_bind_eq_ok.mp h
    exact nomatch failed

theorem parseHeader_eq_ok {bytes : Bytes} {header : ClassHeader}
    (h : parseHeader bytes = .ok header) : ∃ s, bytes = Bytes.ofU4 magic ++ s := by
  obtain ⟨⟨c, rest⟩, read, _⟩ := except_bind_eq_ok.mp h
  exact readFront_eq_ok read

end ClassFile

namespace RawJson

/-- A tree that can be a record starts with a bracket. -/
theorem readTree_record {n : ℕ} {s rest : Bytes} {t : RawJson} {names : List String}
    {fields : List (String × RawJson)} (read : readTree n s = some (t, rest))
    (record : t.record? names = some fields) :
    ∃ b s', s = b :: s' ∧ (b = byteOf '[' ∨ b = byteOf '\x7b') := by
  unfold readTree at read
  split at read
  · exact nomatch read
  · exact nomatch read
  · rename_i n b s'
    refine ⟨b, s', rfl, ?_⟩
    split_ifs at read with quote bracket brace null yes no
    · obtain ⟨p, _, made⟩ := Option.map_eq_some_iff.mp read
      obtain ⟨rfl, _⟩ := Prod.mk.inj made
      exact nomatch record
    · exact .inl bracket
    · exact .inr brace
    all_goals
      obtain ⟨p, _, made⟩ := Option.map_eq_some_iff.mp read
      obtain ⟨rfl, _⟩ := Prod.mk.inj made
      exact nomatch record

end RawJson

namespace Refmap

theorem remapBytes?_start {ix : MappingIndex} {bytes out : Bytes}
    (h : remapBytes? ix bytes = some out) : ∃ b s, RawJson.skipSpace bytes = b :: s ∧
      (b = RawJson.byteOf '[' ∨ b = RawJson.byteOf '\x7b') := by
  obtain ⟨m, parsed, _⟩ := Option.map_eq_some_iff.mp h
  obtain ⟨t, tree, record⟩ := Option.bind_eq_some_iff.mp parsed
  obtain ⟨fields, known, _⟩ := Option.bind_eq_some_iff.mp record
  obtain ⟨⟨t', rest⟩, read, whole⟩ := Option.bind_eq_some_iff.mp tree
  dsimp only at whole
  split_ifs at whole
  obtain rfl := Option.some.inj whole
  exact RawJson.readTree_record read known

theorem remapBytes?_of_class {ix : MappingIndex} {bytes : Bytes} {header : ClassHeader}
    (h : ClassFile.parseHeader bytes = .ok header) : remapBytes? ix bytes = none := by
  obtain ⟨s, rfl⟩ := ClassFile.parseHeader_eq_ok h
  by_contra some
  obtain ⟨out, rewritten⟩ := Option.ne_none_iff_exists'.mp some
  obtain ⟨b, s', start, bracket⟩ := remapBytes?_start rewritten
  have first : b = 0xCA := (List.cons.inj start).1.symm
  rw [first] at bracket
  exact absurd bracket (by decide)

end Refmap

namespace Text

theorem words_append_of_blank {front : List Char} (blank : ∀ c ∈ front, isBlank c = true)
    (s : List Char) : words (front ++ s) = words s := by
  induction front with
  | nil => rfl
  | cons c front ih =>
    obtain ⟨first, others⟩ := List.forall_mem_cons.mp blank
    rw [← ih others]
    unfold words
    rw [List.cons_append, List.foldr_cons, if_pos first]
    exact List.filter_cons_of_neg (by simp only [ne_eq, not_true_eq_false, decide_false,
      Bool.false_eq_true, not_false_eq_true])

theorem words_of_blank {s : List Char} (blank : ∀ c ∈ s, isBlank c = true) : words s = [] := by
  rw [← List.append_nil s, words_append_of_blank blank]
  rfl

theorem words_cons {c : Char} (solid : isBlank c = false) (s : List Char) :
    ∃ w ws, words (c :: s) = (c :: w) :: ws := by
  unfold words
  rw [List.foldr_cons, solid, if_neg Bool.false_ne_true]
  split
  · exact ⟨[], [], rfl⟩
  · rename_i w ws _
    exact ⟨w, _, List.filter_cons_of_pos rfl⟩

theorem fields_eq_cons (sep : Char) (s : List Char) : ∃ f fs, fields sep s = f :: fs := by
  cases s with
  | nil => exact ⟨[], [], rfl⟩
  | cons c s =>
    unfold fields
    split_ifs
    · exact ⟨[], fields sep s, rfl⟩
    · split
      · exact ⟨[c], [], rfl⟩
      · rename_i f fs _
        exact ⟨c :: f, fs, rfl⟩

theorem fields_cons_of_ne {sep c : Char} {s f : List Char} {fs : List (List Char)} (ne : c ≠ sep)
    (cut : fields sep s = f :: fs) : fields sep (c :: s) = (c :: f) :: fs := by
  rw [fields, if_neg ne, cut]

end Text

namespace Utf8

theorem decodeWithin_cons {n : ℕ} {b : UInt8} {s : Bytes} {text : List Char} (ascii : b < 0x80)
    (h : decodeWithin n (b :: s) = some text) :
    ∃ n' text', decodeWithin n' s = some text' ∧ text = Char.ofNat b.toNat :: text' := by
  cases n with
  | zero => exact nomatch h
  | succ n =>
    have single : first b s = .char (Char.ofNat b.toNat) s := by rw [first, if_pos ascii]
    rw [decodeWithin, single] at h
    obtain ⟨text', decoded, rfl⟩ := Option.map_eq_some_iff.mp h
    exact ⟨n, text', decoded, rfl⟩

/-- The blanks of a document are blanks of its text, in which what follows them comes next. -/
theorem decodeWithin_blanks {n : ℕ} {s s' : Bytes} {b : UInt8} {text : List Char}
    (start : RawJson.skipSpace s = b :: s') (ascii : b < 0x80)
    (h : decodeWithin n s = some text) : ∃ front rest, text = front ++ Char.ofNat b.toNat :: rest ∧
      ∀ c ∈ front, Text.isBlank c = true ∧ c ≠ '#' := by
  induction s generalizing n text with
  | nil => exact nomatch start
  | cons a s ih =>
    rw [RawJson.skipSpace, List.dropWhile_cons] at start
    split_ifs at start with space
    · have blank : a = 0x20 ∨ a = 0x0A ∨ a = 0x0D ∨ a = 0x09 := by
        simpa only [RawJson.isSpace, Bool.or_eq_true, decide_eq_true_eq, or_assoc] using space
      have known : a < 0x80 ∧ Text.isBlank (Char.ofNat a.toNat) = true ∧
          Char.ofNat a.toNat ≠ '#' := by
        rcases blank with rfl | rfl | rfl | rfl <;> decide
      obtain ⟨n', text', decoded, rfl⟩ := decodeWithin_cons known.1 h
      obtain ⟨front, rest, rfl, blanks⟩ := ih start decoded
      exact ⟨Char.ofNat a.toNat :: front, rest, rfl, List.forall_mem_cons.mpr ⟨known.2, blanks⟩⟩
    · obtain ⟨rfl, rfl⟩ := List.cons.inj start
      obtain ⟨n', text', _, rfl⟩ := decodeWithin_cons ascii h
      exact ⟨[], text', rfl, nofun⟩

theorem decode?_class (s : Bytes) : decode? (Bytes.ofU4 ClassFile.magic ++ s) = none := rfl

end Utf8

namespace AccessWidener

open Text

variable {ix : MappingIndex} {c : Char}

theorem readHeader_of_ne {number : ℕ} {token : String} {tokens : List String}
    (other : token ≠ "accessWidener") (p : Version × List String) :
    readHeader ix number (token :: tokens) ≠ .ok p := by
  unfold readHeader
  split
  · rename_i same
    obtain ⟨rfl, _⟩ := List.cons.inj same
    rw [if_pos other]
    exact nofun
  · exact nofun

/-- The line without the end that it has in some files. -/
theorem getD_dropEnd? (line : List Char) :
    ∃ tail, (dropEnd? ['\r'] line).getD line ++ tail = line ∧ (tail = [] ∨ tail = ['\r']) := by
  cases cut : dropEnd? ['\r'] line with
  | none => exact ⟨[], List.append_nil line, .inl rfl⟩
  | some l => exact ⟨['\r'], (dropEnd?_eq_some_iff.mp cut).symm, .inr rfl⟩

theorem splitComment_of_blank {line : List Char} (blank : ∀ x ∈ line, isBlank x = true ∧ x ≠ '#')
    (s : List Char) : (splitComment (line ++ s)).1 = line ++ (splitComment s).1 := by
  unfold splitComment
  exact List.takeWhile_append_of_pos fun x member => decide_eq_true (blank x member).2

/-- Before the header, a line of blanks says nothing. -/
theorem remapLine_of_blank (ix : MappingIndex) (number : ℕ) {raw : List Char}
    (blank : ∀ x ∈ raw, isBlank x = true ∧ x ≠ '#') :
    ∃ line, remapLine ix number none raw = .ok (none, line) := by
  obtain ⟨tail, split, _⟩ := getD_dropEnd? raw
  have within : ∀ x ∈ (dropEnd? ['\r'] raw).getD raw, isBlank x = true ∧ x ≠ '#' :=
    fun x member => blank x (split ▸ List.mem_append_left tail member)
  have none : words (splitComment ((dropEnd? ['\r'] raw).getD raw)).1 = [] := by
    have whole := splitComment_of_blank within []
    rw [List.append_nil] at whole
    rw [whole, show (splitComment []).1 = [] from rfl, List.append_nil]
    exact words_of_blank fun x member => (within x member).1
  refine ⟨String.ofList ((dropEnd? ['\r'] raw).getD raw), ?_⟩
  unfold remapLine
  dsimp only
  rw [none, List.map_nil, List.isEmpty_nil, if_pos rfl]

/-- Before the header, a line that starts with a bracket is refused. -/
theorem remapLine_of_bracket {number : ℕ} {front rest : List Char}
    (blank : ∀ x ∈ front, isBlank x = true ∧ x ≠ '#') (bracket : c = '[' ∨ c = '\x7b')
    (p : Option Version × String) :
    remapLine ix number none (front ++ c :: rest) ≠ .ok p := by
  have solid : isBlank c = false ∧ c ≠ '#' ∧ c ≠ '\r' ∧ c ≠ 'a' := by
    rcases bracket with rfl | rfl <;> decide
  obtain ⟨tail, split, short⟩ := getD_dropEnd? (front ++ c :: rest)
  have inside : c ∉ tail := by
    rcases short with rfl | rfl
    · exact List.not_mem_nil
    · exact fun member => solid.2.2.1 (List.mem_singleton.mp member)
  -- The bracket is no carriage return, so it stays on the line.
  obtain ⟨rest', line⟩ : ∃ rest',
      (dropEnd? ['\r'] (front ++ c :: rest)).getD (front ++ c :: rest) = front ++ c :: rest' := by
    rcases List.append_eq_append_iff.mp split with ⟨mid, _, ending⟩ | ⟨mid, line, ending⟩
    · exact absurd (ending ▸ List.mem_append_right mid List.mem_cons_self) inside
    · cases mid with
      | nil =>
        rw [List.nil_append] at ending
        exact absurd (ending ▸ List.mem_cons_self) inside
      | cons x mid =>
        obtain ⟨rfl, _⟩ := List.cons.inj ending
        exact ⟨mid, line⟩
  obtain ⟨content, cut⟩ : ∃ content, (splitComment (c :: rest')).1 = c :: content :=
    ⟨_, List.takeWhile_cons_of_pos (p := fun x => decide (x ≠ '#')) (decide_eq_true solid.2.1)⟩
  obtain ⟨w, ws, tokens⟩ := words_cons solid.1 content
  have other : String.ofList (c :: w) ≠ "accessWidener" := by
    intro same
    have first := congrArg (fun s : String => s.toList.head?) same
    rw [String.toList_ofList] at first
    exact solid.2.2.2 (Option.some.inj first)
  unfold remapLine
  dsimp only
  rw [line, splitComment_of_blank blank, cut,
    words_append_of_blank fun x member => (blank x member).1, tokens, List.map_cons,
    List.isEmpty_cons, if_neg Bool.false_ne_true]
  intro done
  obtain ⟨header, read, _⟩ := except_bind_eq_ok.mp done
  exact readHeader_of_ne other header read

/-- The lines of a text that starts with a bracket, after blanks. What stands before the text on the
first line is blank too. -/
theorem remapLines_of_bracket (ix : MappingIndex) {front : List Char} (rest : List Char)
    (blank : ∀ x ∈ front, isBlank x = true ∧ x ≠ '#') (bracket : c = '[' ∨ c = '\x7b') :
    ∃ line lines, fields '\n' (front ++ c :: rest) = line :: lines ∧
      ∀ pre, (∀ x ∈ pre, isBlank x = true ∧ x ≠ '#') →
        ∀ number out, remapLines ix number none ((pre ++ line) :: lines) ≠ .ok out := by
  induction front with
  | nil =>
    have ne : c ≠ '\n' := by rcases bracket with rfl | rfl <;> decide
    obtain ⟨line, lines, cut⟩ := fields_eq_cons '\n' rest
    refine ⟨c :: line, lines, fields_cons_of_ne ne cut, fun pre blanks number out done => ?_⟩
    obtain ⟨p, header, _⟩ := except_bind_eq_ok.mp done
    exact remapLine_of_bracket blanks bracket p header
  | cons x front ih =>
    obtain ⟨first, others⟩ := List.forall_mem_cons.mp blank
    obtain ⟨line, lines, cut, refused⟩ := ih others
    rw [List.cons_append]
    by_cases ends : x = '\n'
    · refine ⟨[], line :: lines, by rw [fields, if_pos ends, cut], fun pre blanks number out done => ?_⟩
      obtain ⟨p, header, done⟩ := except_bind_eq_ok.mp done
      obtain ⟨text, same⟩ := remapLine_of_blank ix number blanks
      rw [List.append_nil] at header
      obtain rfl := Except.ok.inj (same.symm.trans header)
      obtain ⟨out', done, _⟩ := except_bind_eq_ok.mp done
      exact refused [] nofun _ out' done
    · refine ⟨x :: line, lines, fields_cons_of_ne ends cut, fun pre blanks number out => ?_⟩
      have longer := refused (pre ++ [x]) (fun y member => ?_) number out
      · rwa [List.append_assoc, List.singleton_append] at longer
      · rcases List.mem_append.mp member with member | last
        · exact blanks y member
        · exact List.mem_singleton.mp last ▸ first

theorem remap_of_refmap {ix' : MappingIndex} {bytes out : Bytes}
    (h : Refmap.remapBytes? ix' bytes = some out) (out' : Bytes) : remap ix bytes ≠ .ok out' := by
  obtain ⟨b, s, start, bracket⟩ := Refmap.remapBytes?_start h
  intro done
  unfold remap at done
  split at done
  · exact nomatch done
  · rename_i text decoded
    have known : b < 0x80 ∧ (Char.ofNat b.toNat = '[' ∨ Char.ofNat b.toNat = '\x7b') := by
      rcases bracket with rfl | rfl
      · exact ⟨by decide, .inl (by decide)⟩
      · exact ⟨by decide, .inr (by decide)⟩
    obtain ⟨front, rest, rfl, blank⟩ := Utf8.decodeWithin_blanks start known.1 decoded
    obtain ⟨lines, rewritten, _⟩ := except_bind_eq_ok.mp done
    obtain ⟨line, lines', cut, refused⟩ := remapLines_of_bracket ix rest blank known.2
    rw [cut] at rewritten
    exact refused [] nofun 1 lines rewritten

theorem remap_of_class {bytes : Bytes} {header : ClassHeader}
    (h : ClassFile.parseHeader bytes = .ok header) (out : Bytes) : remap ix bytes ≠ .ok out := by
  obtain ⟨s, rfl⟩ := ClassFile.parseHeader_eq_ok h
  unfold remap
  rw [Utf8.decode?_class]
  exact nofun

end AccessWidener

end ModRemap
