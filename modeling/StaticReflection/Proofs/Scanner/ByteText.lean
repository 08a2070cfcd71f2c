import Mathlib.Data.List.TakeWhile
import StaticReflection.Proofs.Scanner.Tiling
import StaticReflection.Proofs.Values.TextDecoding
import StaticReflection.Token.Bytes

namespace StaticReflection

/-! A text as its bytes show it. Characters of ASCII stand for themselves, and every other one
for several bytes that are all alike to the scanner. -/

/-- What the bytes of a text look like. -/
def Text.shown (text : Text) : List Char :=
  byteChars (Utf8.encode text)

def IsWide (c : Char) : Prop :=
  128 ≤ c.toNat

instance (c : Char) : Decidable (IsWide c) :=
  inferInstanceAs (Decidable (128 ≤ c.toNat))

/-- All characters are of ASCII. -/
def AllNarrow (text : List Char) : Prop :=
  ∀ c ∈ text, ¬ IsWide c

instance (text : List Char) : Decidable (AllNarrow text) :=
  List.decidableBAll _ text

/-- Single bytes tell the test as much as the whole character does. -/
def ByteWise (test : Char → Bool) : Prop :=
  ∀ c d, IsWide c → IsWide d → test c = test d

/-- The test passes characters of ASCII only. -/
def Narrow (test : Char → Bool) : Prop :=
  ∀ c, test c = true → ¬ IsWide c

theorem IsWide.ne {c d : Char} (wide : IsWide c) (narrow : ¬ IsWide d) : c ≠ d :=
  fun same => narrow (same ▸ wide)

theorem Narrow.fails {test : Char → Bool} (narrow : Narrow test) {c : Char} (wide : IsWide c) :
    test c = false :=
  Bool.eq_false_iff.mpr fun passes => narrow c passes wide

theorem Narrow.byteWise {test : Char → Bool} (narrow : Narrow test) : ByteWise test := by
  intro c d wide wideToo
  rw [narrow.fails wide, narrow.fails wideToo]

theorem utf8Size_of_narrow {c : Char} (narrow : ¬ IsWide c) : c.utf8Size = 1 := by
  rw [Char.utf8Size_eq_one_iff]
  exact UInt32.le_iff_toNat_le.mpr (Nat.le_of_lt_succ (Nat.lt_of_not_le narrow))

theorem isWide_byte {byte : UInt8} (large : 128 ≤ byte.toNat) :
    IsWide (Char.ofNat byte.toNat) := by
  have small := byte.toNat_lt
  unfold IsWide
  rw [Char.ofNat, dif_pos (.inl (by omega))]
  exact large

theorem byteChars_utf8EncodeChar (c : Char) :
    ¬ IsWide c ∧ byteChars (String.utf8EncodeChar c) = [c] ∨
      IsWide c ∧ ∀ d ∈ byteChars (String.utf8EncodeChar c), IsWide d := by
  have sequence := Utf8.sequence_utf8EncodeChar c
  generalize String.utf8EncodeChar c = bytes at sequence ⊢
  have wide {number : Nat} (code : c.toNat = number) (large : 128 ≤ number)
      (all : ∀ byte ∈ bytes, 128 ≤ byte.toNat) :
      ¬ IsWide c ∧ byteChars bytes = [c] ∨ IsWide c ∧ ∀ d ∈ byteChars bytes, IsWide d := by
    refine .inr ⟨Nat.le_trans large (Nat.le_of_eq code.symm), fun d among => ?_⟩
    obtain ⟨byte, inside, rfl⟩ := List.mem_map.mp among
    exact isWide_byte (all byte inside)
  generalize code : c.toNat = number at sequence
  cases sequence with
  | one small =>
      refine .inl ⟨by unfold IsWide; omega, ?_⟩
      rw [byteChars, List.map_singleton, ← code, Char.ofNat_toNat]
  | two least greatest second =>
      unfold Utf8.IsContinuation at second
      refine wide code (by omega) ?_
      simp only [List.forall_mem_cons]
      exact ⟨by omega, second.1, nofun⟩
  | three least greatest second long surrogate third =>
      unfold Utf8.IsContinuation at second third
      refine wide code (by omega) ?_
      simp only [List.forall_mem_cons]
      exact ⟨by omega, second.1, third.1, nofun⟩
  | four least greatest second long large third fourth =>
      unfold Utf8.IsContinuation at second third fourth
      refine wide code (by omega) ?_
      simp only [List.forall_mem_cons]
      exact ⟨by omega, second.1, third.1, fourth.1, nofun⟩

namespace Text

theorem shown_append (first second : Text) :
    shown (first ++ second) = shown first ++ shown second := by
  simp [shown, byteChars, Utf8.encode]

@[simp] theorem shown_nil : shown [] = [] := rfl

theorem shown_cons (c : Char) (text : Text) :
    shown (c :: text) = byteChars (String.utf8EncodeChar c) ++ shown text :=
  shown_append [c] text |>.trans (by simp [shown, Utf8.encode])

theorem shown_cons_of_narrow {c : Char} (narrow : ¬ IsWide c) (text : Text) :
    shown (c :: text) = c :: shown text := by
  obtain ⟨_, single⟩ | ⟨wide, _⟩ := byteChars_utf8EncodeChar c
  · rw [shown_cons, single]
    rfl
  · exact absurd wide narrow

/-- A character outside of ASCII shows as bytes that are all outside of it, one at least. -/
theorem shown_cons_of_wide {c : Char} (wide : IsWide c) (text : Text) :
    ∃ d more, IsWide d ∧ (∀ e ∈ more, IsWide e) ∧ shown (c :: text) = d :: (more ++ shown text) ∧
      more.length + 1 = c.utf8Size := by
  obtain ⟨narrow, _⟩ | ⟨_, all⟩ := byteChars_utf8EncodeChar c
  · exact absurd wide narrow
  · have size : (byteChars (String.utf8EncodeChar c)).length = c.utf8Size := by
      rw [byteChars, List.length_map, String.length_utf8EncodeChar]
    have positive := c.utf8Size_pos
    rw [shown_cons]
    cases bytes : byteChars (String.utf8EncodeChar c) with
    | nil =>
        rw [bytes] at size
        simp at size
        omega
    | cons d more =>
        rw [bytes, List.forall_mem_cons] at all
        rw [bytes] at size
        exact ⟨d, more, all.1, all.2, rfl, size⟩

/-- The bytes of a character outside of ASCII. -/
theorem shown_cons_wide {c : Char} (wide : IsWide c) (text : Text) :
    ∃ more, (∀ d ∈ more, IsWide d) ∧ shown (c :: text) = more ++ shown text ∧
      more.length = c.utf8Size := by
  obtain ⟨d, more, first, others, same, size⟩ := shown_cons_of_wide wide text
  exact ⟨d :: more, List.forall_mem_cons.mpr ⟨first, others⟩, same, size⟩

theorem length_shown (text : Text) : text.shown.length = text.byteSize := by
  induction text with
  | nil => rfl
  | cons c text ih =>
      rw [shown_cons, List.length_append, ih, byteSize_cons, byteChars, List.length_map,
        String.length_utf8EncodeChar]

theorem length_encode (text : Text) : (Utf8.encode text).length = text.byteSize := by
  rw [← length_shown, shown, byteChars, List.length_map]

theorem shown_eq_nil_iff (text : Text) : text.shown = [] ↔ text = [] := by
  rw [← List.length_eq_zero_iff, ← List.length_eq_zero_iff, length_shown]
  have atLeast := length_le_byteSize text
  refine ⟨fun empty => by omega, fun empty => ?_⟩
  obtain rfl := List.length_eq_zero_iff.mp empty
  rfl

theorem take_length_takeWhile (test : Char → Bool) (text : Text) :
    text.take (text.takeWhile test).length = text.takeWhile test :=
  (List.prefix_iff_eq_take.mp (List.takeWhile_prefix test)).symm

/-- How many bytes the first characters of a text take. -/
def width (text : Text) (count : Nat) : Nat :=
  byteSize (text.take count)

variable (text : Text)

theorem shown_split (count : Nat) :
    text.shown = shown (text.take count) ++ shown (text.drop count) := by
  rw [← shown_append, List.take_append_drop]

theorem length_shown_take (count : Nat) : (shown (text.take count)).length = text.width count :=
  length_shown _

theorem drop_shown (count : Nat) :
    text.shown.drop (text.width count) = shown (text.drop count) := by
  rw [text.shown_split count, ← length_shown_take, List.drop_left]

@[simp] theorem width_zero : text.width 0 = 0 := rfl

theorem width_add (first second : Nat) :
    text.width (first + second) = text.width first + width (text.drop first) second := by
  rw [width, width, width, ← byteSize_append, List.take_add]

theorem width_length : text.width text.length = text.byteSize := by
  rw [width, List.take_length]

theorem width_add_byteSize_drop (count : Nat) :
    text.width count + byteSize (text.drop count) = text.byteSize := by
  rw [width, ← byteSize_append, List.take_append_drop]

theorem width_cons (c : Char) (text : Text) (count : Nat) :
    width (c :: text) (count + 1) = c.utf8Size + width text count := by
  rw [width, List.take_succ_cons, byteSize_cons]
  rfl

theorem width_pair {c d : Char} (narrow : ¬ IsWide c) (narrowToo : ¬ IsWide d) (text : Text)
    (count : Nat) : width (c :: d :: text) (count + 2) = 2 + width text count := by
  rw [width_cons, width_cons, utf8Size_of_narrow narrow, utf8Size_of_narrow narrowToo]
  omega

theorem width_append_add (before rest : Text) (count : Nat) :
    width (before ++ rest) (before.length + count) = before.byteSize + width rest count := by
  rw [width, List.take_length_add_append, byteSize_append]
  rfl

theorem width_eq_zero {text : Text} {count : Nat} (inside : count ≤ text.length) :
    text.width count = 0 ↔ count = 0 := by
  have atLeast := length_le_byteSize (text.take count)
  rw [List.length_take_of_le inside] at atLeast
  constructor
  · intro zero
    unfold width at zero
    omega
  · rintro rfl
    rfl

section Tests

variable {test : Char → Bool}

theorem any_head?_shown (byteWise : ByteWise test) :
    text.shown.head?.any test = text.head?.any test := by
  cases text with
  | nil => rfl
  | cons c text =>
      by_cases wide : IsWide c
      · obtain ⟨d, more, first, _, same, _⟩ := shown_cons_of_wide wide text
        rw [same]
        exact byteWise d c first wide
      · rw [shown_cons_of_narrow wide]
        rfl

theorem takeWhile_shown (byteWise : ByteWise test) :
    text.shown.takeWhile test = shown (text.takeWhile test) := by
  induction text with
  | nil => rfl
  | cons c text ih =>
      cases passes : test c with
      | true =>
          have all : ∀ d ∈ byteChars (String.utf8EncodeChar c), test d = true := by
            obtain ⟨_, single⟩ | ⟨wide, others⟩ := byteChars_utf8EncodeChar c
            · rw [single, List.forall_mem_singleton]
              exact passes
            · intro d among
              rw [byteWise d c (others d among) wide, passes]
          rw [List.takeWhile_cons_of_pos passes, shown_cons, shown_cons,
            List.takeWhile_append_of_pos all, ih]
      | false =>
          have head := any_head?_shown (c :: text) byteWise
          rw [List.head?_cons, Option.any_some, passes] at head
          rw [List.takeWhile_cons_of_neg (by rw [passes]; nofun), shown_nil]
          cases bytes : shown (c :: text) with
          | nil => rfl
          | cons d more =>
              rw [bytes] at head
              exact List.takeWhile_cons_of_neg (by rw [← Bool.not_eq_true] at head; exact head)

theorem length_takeWhile_shown (byteWise : ByteWise test) :
    (text.shown.takeWhile test).length = text.width (text.takeWhile test).length := by
  rw [takeWhile_shown text byteWise, length_shown, width, take_length_takeWhile]

theorem all_head?_shown (byteWise : ByteWise test) :
    text.shown.head?.all test = text.head?.all test := by
  cases text with
  | nil => rfl
  | cons c text =>
      by_cases wide : IsWide c
      · obtain ⟨d, more, first, _, same, _⟩ := shown_cons_of_wide wide text
        rw [same]
        exact byteWise d c first wide
      · rw [shown_cons_of_narrow wide]
        rfl

end Tests

/-! Characters of ASCII. -/

variable {text}

theorem shown_of_narrow (narrow : AllNarrow text) : text.shown = text := by
  induction text with
  | nil => rfl
  | cons c text ih =>
      obtain ⟨here, others⟩ := List.forall_mem_cons.mp narrow
      rw [shown_cons_of_narrow here, ih others]

theorem byteSize_of_narrow (narrow : AllNarrow text) : text.byteSize = text.length := by
  rw [← length_shown, shown_of_narrow narrow]

/-- The text begins with so many characters of ASCII. -/
structure NarrowFor (text : Text) (count : Nat) : Prop where
  inside : count ≤ text.length
  narrow : AllNarrow (text.take count)

namespace NarrowFor

variable {first second : Nat}

theorem zero : NarrowFor text 0 :=
  ⟨Nat.zero_le _, nofun⟩

theorem cons {c : Char} (here : ¬ IsWide c) (more : NarrowFor text first) :
    NarrowFor (c :: text) (first + 1) :=
  ⟨Nat.succ_le_succ more.inside, List.forall_mem_cons.mpr ⟨here, more.narrow⟩⟩

theorem ite {condition : Prop} [Decidable condition]
    (opens : condition → ∃ c, text.head? = some c ∧ ¬ IsWide c) :
    NarrowFor text (if condition then 1 else 0) := by
  split
  · obtain ⟨c, head, narrow⟩ := opens ‹_›
    obtain ⟨after, rfl⟩ := List.head?_eq_some_iff.mp head
    exact zero.cons narrow
  · exact zero

theorem takeWhile {test : Char → Bool} (narrow : Narrow test) (text : Text) :
    NarrowFor text (text.takeWhile test).length := by
  refine ⟨(List.takeWhile_prefix test).length_le, fun c among => narrow c ?_⟩
  rw [take_length_takeWhile] at among
  exact List.mem_takeWhile_imp among

theorem of_take (word : List Char) (narrow : AllNarrow word)
    (front : text.take word.length = word) : NarrowFor text word.length := by
  refine ⟨?_, by rwa [front]⟩
  have long := congrArg List.length front
  rw [List.length_take] at long
  omega

theorem of_le (narrow : NarrowFor text first) (le : second ≤ first) : NarrowFor text second where
  inside := Nat.le_trans le narrow.inside
  narrow c among := narrow.narrow c ((List.take_prefix_take_left le).subset among)

theorem add (narrow : NarrowFor text first) (more : NarrowFor (text.drop first) second) :
    NarrowFor text (first + second) := by
  refine ⟨?_, fun c among => ?_⟩
  · have inside := narrow.inside
    have left := more.inside
    rw [List.length_drop] at left
    omega
  · rw [List.take_add] at among
    exact (List.mem_append.mp among).elim (narrow.narrow c) (more.narrow c)

variable (narrow : NarrowFor text first)

include narrow

theorem width_eq : text.width first = first := by
  rw [width, byteSize_of_narrow narrow.narrow, List.length_take_of_le narrow.inside]

theorem drop_shown : text.shown.drop first = shown (text.drop first) := by
  rw [← Text.drop_shown, narrow.width_eq]

theorem getElem?_shown : text.shown[first]? = (shown (text.drop first)).head? := by
  rw [← narrow.drop_shown, List.head?_drop]

end NarrowFor

theorem takeWhile_shown_of_narrow {test : Char → Bool} (narrow : Narrow test) (text : Text) :
    text.shown.takeWhile test = text.takeWhile test := by
  rw [takeWhile_shown text narrow.byteWise]
  exact shown_of_narrow fun c among => narrow c (List.mem_takeWhile_imp among)

theorem isPrefixOf_shown {word : List Char} (narrow : AllNarrow word) (text : Text) :
    word.isPrefixOf text.shown = word.isPrefixOf text := by
  induction word generalizing text with
  | nil => simp
  | cons c word ih =>
      obtain ⟨here, others⟩ := List.forall_mem_cons.mp narrow
      cases text with
      | nil => rfl
      | cons d text =>
          by_cases wide : IsWide d
          · obtain ⟨e, more, first, _, same, _⟩ := shown_cons_of_wide wide text
            have apart : c ≠ d := fun equal => here (equal ▸ wide)
            have apartToo : c ≠ e := fun equal => here (equal ▸ first)
            rw [same, List.isPrefixOf_cons_cons, List.isPrefixOf_cons_cons,
              beq_eq_false_iff_ne.mpr apart, beq_eq_false_iff_ne.mpr apartToo, Bool.false_and,
              Bool.false_and]
          · rw [shown_cons_of_narrow wide, List.isPrefixOf_cons_cons, List.isPrefixOf_cons_cons,
              ih others]

theorem map_take_shown_eq_iff {fold : Char → Char} (keeps : ∀ c, IsWide c → IsWide (fold c))
    (word : List Char) (narrow : AllNarrow word) (text : Text) :
    (text.shown.take word.length).map fold = word ↔ (text.take word.length).map fold = word := by
  induction word generalizing text with
  | nil => simp
  | cons c word ih =>
      obtain ⟨here, others⟩ := List.forall_mem_cons.mp narrow
      cases text with
      | nil => rfl
      | cons d text =>
          by_cases wide : IsWide d
          · obtain ⟨e, more, first, _, same, _⟩ := shown_cons_of_wide wide text
            have apart : ∀ d, IsWide d → ∀ rest : List Char,
                ((d :: rest).take (c :: word).length).map fold ≠ c :: word := by
              intro d wide rest equal
              exact here ((List.cons.inj equal).1 ▸ keeps d wide)
            rw [same]
            exact iff_of_false (apart e first _) (apart d wide text)
          · rw [shown_cons_of_narrow wide]
            simp only [List.length_cons, List.take_succ_cons, List.map_cons, List.cons_eq_cons,
              ih others]

theorem take_shown_eq_iff (word : List Char) (narrow : AllNarrow word) (text : Text) :
    text.shown.take word.length = word ↔ text.take word.length = word := by
  have keeps : ∀ c, IsWide c → IsWide (id c) := fun _ wide => wide
  simpa only [List.map_id] using map_take_shown_eq_iff keeps word narrow text

theorem take_two_eq_iff {c d : Char} (narrow : ¬ IsWide c) (narrowToo : ¬ IsWide d) (text : Text) :
    text.shown.take 2 = [c, d] ↔ text.take 2 = [c, d] :=
  take_shown_eq_iff [c, d]
    (List.forall_mem_cons.mpr ⟨narrow, List.forall_mem_singleton.mpr narrowToo⟩) text

theorem head?_shown_eq_iff {c : Char} (narrow : ¬ IsWide c) (text : Text) :
    text.shown.head? = some c ↔ text.head? = some c := by
  have single (text : List Char) : text.head? = some c ↔ text.take 1 = [c] := by
    cases text <;> simp
  rw [single, single]
  exact take_shown_eq_iff [c] (List.forall_mem_singleton.mpr narrow) text

theorem beq_head?_shown {c : Char} (narrow : ¬ IsWide c) (text : Text) :
    (text.shown.head? == some c) = (text.head? == some c) := by
  rw [Bool.eq_iff_iff, beq_iff_eq, beq_iff_eq]
  exact head?_shown_eq_iff narrow text

end Text

/-! Pieces of a text at their offsets. -/

section Pieces

variable (before rest : Text)

theorem encode_append : Utf8.encode (before ++ rest) = Utf8.encode before ++ Utf8.encode rest := by
  simp [Utf8.encode]

theorem isBoundary_byteSize :
    isBoundary (Utf8.encode (before ++ rest)) before.byteSize = true := by
  cases rest with
  | nil => simp [isBoundary, Text.length_encode]
  | cons c rest =>
      have at_ : (Utf8.encode (before ++ c :: rest))[before.byteSize]? =
          (String.utf8EncodeChar c ++ Utf8.encode rest)[0]? := by
        rw [encode_append, ← Text.length_encode, List.getElem?_append_right (Nat.le_refl _),
          Nat.sub_self]
        rfl
      have sequence := Utf8.sequence_utf8EncodeChar c
      have leads : ((String.utf8EncodeChar c ++ Utf8.encode rest)[0]?).any
          (fun byte => byte < 0x80 || 0xc0 ≤ byte) = true := by
        generalize String.utf8EncodeChar c = bytes at sequence ⊢
        generalize c.toNat = code at sequence
        cases sequence <;>
          simp only [List.cons_append, List.getElem?_cons_zero, Option.any_some, Bool.or_eq_true,
            decide_eq_true_eq, UInt8.lt_iff_toNat_lt, UInt8.le_iff_toNat_le, UInt8.reduceToNat] <;>
          omega
      simp [isBoundary, at_, leads]

theorem cut?_append (middle after : Text) :
    cut? (Utf8.encode (before ++ middle ++ after)) before.byteSize
      (before.byteSize + middle.byteSize) = some middle := by
  have first : isBoundary (Utf8.encode (before ++ middle ++ after)) before.byteSize = true := by
    rw [List.append_assoc]
    exact isBoundary_byteSize before (middle ++ after)
  have second := isBoundary_byteSize (before ++ middle) after
  rw [Text.byteSize_append] at second
  have bytes : ((Utf8.encode (before ++ middle ++ after)).take
      (before.byteSize + middle.byteSize)).drop before.byteSize = Utf8.encode middle := by
    rw [encode_append (before ++ middle), ← Text.byteSize_append,
      ← Text.length_encode (before ++ middle), List.take_left, encode_append,
      ← Text.length_encode, List.drop_left]
  rw [cut?, first, second, bytes, Utf8.decode_encode]
  simp

end Pieces

/-- At an offset the rest of a text begins. -/
def RestAt (bytes : List UInt8) (pos : Nat) (rest : Text) : Prop :=
  ∃ before : Text, bytes = Utf8.encode (before ++ rest) ∧ pos = before.byteSize

namespace RestAt

variable {bytes : List UInt8} {pos : Nat} {rest : Text} (here : RestAt bytes pos rest)

include here

theorem ahead_eq : ahead bytes pos = rest.shown := by
  obtain ⟨before, rfl, rfl⟩ := here
  have shown : byteChars (Utf8.encode (before ++ rest)) = before.shown ++ rest.shown :=
    Text.shown_append before rest
  rw [ahead, shown, ← Text.length_shown, List.drop_left]

theorem length_eq : bytes.length = pos + rest.byteSize := by
  obtain ⟨before, rfl, rfl⟩ := here
  rw [Text.length_encode, Text.byteSize_append]

theorem advance (count : Nat) : RestAt bytes (pos + rest.width count) (rest.drop count) := by
  obtain ⟨before, rfl, rfl⟩ := here
  refine ⟨before ++ rest.take count, ?_, ?_⟩
  · rw [List.append_assoc, List.take_append_drop]
  · rw [Text.byteSize_append]
    rfl

theorem tail {c : Char} {text : Text} (front : rest = c :: text) (narrow : ¬ IsWide c) :
    RestAt bytes (pos + 1) text := by
  subst front
  have after := here.advance 1
  rwa [(Text.NarrowFor.zero.cons narrow).width_eq] at after

theorem cut_eq (count : Nat) :
    cut? bytes pos (pos + rest.width count) = some (rest.take count) := by
  obtain ⟨before, rfl, rfl⟩ := here
  have piece := cut?_append before (rest.take count) (rest.drop count)
  rwa [List.append_assoc, List.take_append_drop] at piece

theorem cut_rest : cut? bytes pos bytes.length = some rest := by
  have piece := here.cut_eq rest.length
  rwa [Text.width_length, ← here.length_eq, List.take_length] at piece

end RestAt

end StaticReflection
