import StaticReflection.Proofs.Scanner.IntegerLiterals

namespace StaticReflection

/-! Numbers that strings hold. What stands at the front of a string is a number by a grammar of
its own, and of all the numbers that a string starts with the longest one counts. -/

/-- A sign or none. -/
structure SignMark where
  text : List Char
  known : text = [] ∨ text = ['+'] ∨ text = ['-']

def SignMark.isNegative (sign : SignMark) : Bool :=
  sign.text == ['-']

/-- Any number of decimal digits. -/
structure DigitRun where
  text : List Char
  decimal : ∀ c ∈ text, c.isDigit = true

def DigitRun.value (digits : DigitRun) : Nat :=
  numberOf 10 digits.text

/-- A power of ten by which a number is multiplied. -/
structure ScaleMark where
  letter : Char
  sign : SignMark
  digits : DigitRun
  known : letter = 'e' ∨ letter = 'E'
  written : digits.text ≠ []

namespace ScaleMark

def text (scale : ScaleMark) : List Char :=
  scale.letter :: (scale.sign.text ++ scale.digits.text)

def exponent (scale : ScaleMark) : Int :=
  if scale.sign.isNegative then -(scale.digits.value : Int) else scale.digits.value

end ScaleMark

/-- A number as a string may hold it: blanks, a sign or none, digits with a point before, among
or after them or with none, and a power of ten or none. -/
structure Numeral where
  blanks : List Char
  sign : SignMark
  whole : DigitRun
  /-- The digits after the point, if there is a point. -/
  fraction : Option DigitRun
  scale : Option ScaleMark
  blank : ∀ c ∈ blanks, isSeparatorSpace c = true
  /-- A point does not stand alone. -/
  written : whole.text ≠ [] ∨ ∃ digits ∈ fraction, digits.text ≠ []

namespace Numeral

def afterPoint (numeral : Numeral) : List Char :=
  numeral.fraction.elim [] DigitRun.text

/-- The point and the digits after it. -/
def fractionText (numeral : Numeral) : List Char :=
  numeral.fraction.elim [] fun digits => '.' :: digits.text

def scaleText (numeral : Numeral) : List Char :=
  numeral.scale.elim [] ScaleMark.text

/-- The number from its sign on. -/
def solid (numeral : Numeral) : List Char :=
  numeral.sign.text ++ (numeral.whole.text ++ (numeral.fractionText ++ numeral.scaleText))

def text (numeral : Numeral) : List Char :=
  numeral.blanks ++ numeral.solid

def isInteger (numeral : Numeral) : Bool :=
  numeral.fraction.isNone && numeral.scale.isNone

/-- The number without a fraction and a power of ten. -/
def integer (numeral : Numeral) : Int :=
  if numeral.sign.isNegative then -(numeral.whole.value : Int) else numeral.whole.value

/-- The double nearest to the number. -/
def double (numeral : Numeral) : Float :=
  Binary64.ofDecimal numeral.sign.isNegative
    (numberOf 10 (numeral.whole.text ++ numeral.afterPoint))
    (numeral.scale.elim 0 ScaleMark.exponent - numeral.afterPoint.length)

/-- An integer that fits stays one; all others are doubles. -/
def number (numeral : Numeral) : Number :=
  if numeral.isInteger ∧ int64Min ≤ numeral.integer ∧ numeral.integer ≤ int64Max then
    .int (.ofInt numeral.integer)
  else .float numeral.double

/-- The string starts with the number. -/
def Begins (numeral : Numeral) (bytes : Bytes) : Prop :=
  Utf8.encode numeral.text <+: bytes

/-- The string starts with the number, and with none that is longer. -/
def IsLongest (numeral : Numeral) (bytes : Bytes) : Prop :=
  numeral.Begins bytes ∧
    ∀ other : Numeral, other.Begins bytes → other.text.length ≤ numeral.text.length

/-- The string is the number and blanks after it. -/
def Fills (numeral : Numeral) (bytes : Bytes) : Prop :=
  ∃ blanks, (∀ c ∈ blanks, isSeparatorSpace c = true) ∧
    bytes = Utf8.encode (numeral.text ++ blanks)

end Numeral

/-! The parts of a number. -/

namespace SignMark

variable {text : List Char}

/-- No sign stands at the front. -/
def Absent (text : List Char) : Prop :=
  ∀ c ∈ text.head?, c ≠ '+' ∧ c ≠ '-'

theorem length_append (sign : SignMark) (unsigned : Absent text) :
    (if (sign.text ++ text).head? = some '+' ∨ (sign.text ++ text).head? = some '-' then 1
      else 0) = sign.text.length := by
  obtain ⟨mark, known⟩ := sign
  obtain rfl | rfl | rfl := known
  · have plus : text.head? ≠ some '+' := fun head => (unsigned _ head).1 rfl
    have minus : text.head? ≠ some '-' := fun head => (unsigned _ head).2 rfl
    simp [plus, minus]
  · rfl
  · rfl

theorem takeSign_append (sign : SignMark) (unsigned : Absent text) :
    takeSign (sign.text ++ text) = (sign.isNegative, text) := by
  obtain ⟨mark, known⟩ := sign
  obtain rfl | rfl | rfl := known
  · rw [List.nil_append]
    unfold takeSign
    split
    · exact absurd rfl (unsigned '-' rfl).2
    · exact absurd rfl (unsigned '+' rfl).1
    · rfl
  · rfl
  · rfl

theorem exists_append (text : List Char) : ∃ (sign : SignMark) (rest : List Char),
    text = sign.text ++ rest ∧
      (if text.head? = some '+' ∨ text.head? = some '-' then 1 else 0) = sign.text.length := by
  by_cases signed : text.head? = some '+' ∨ text.head? = some '-'
  · obtain ⟨c, rest, rfl⟩ : ∃ c rest, text = c :: rest := by
      cases text with
      | nil => simp at signed
      | cons c rest => exact ⟨c, rest, rfl⟩
    refine ⟨⟨[c], .inr ?_⟩, rest, rfl, if_pos signed⟩
    simpa using signed
  · exact ⟨⟨[], .inl rfl⟩, text, rfl, if_neg signed⟩

end SignMark

/-- No digit stands at the front. -/
def DigitRun.Absent (text : List Char) : Prop :=
  ∀ c ∈ text.head?, c.isDigit = false

namespace DigitRun

variable {text : List Char}

theorem takeWhile_append (digits : DigitRun) (text : List Char) :
    (digits.text ++ text).takeWhile Char.isDigit =
      digits.text ++ text.takeWhile Char.isDigit :=
  List.takeWhile_append_of_pos digits.decimal

theorem takeWhile_of_absent (absent : Absent text) : text.takeWhile Char.isDigit = [] := by
  cases text with
  | nil => rfl
  | cons c text => simp [absent c rfl]

theorem dropWhile_append (digits : DigitRun) (absent : Absent text) :
    (digits.text ++ text).dropWhile Char.isDigit = text := by
  rw [List.dropWhile_append_of_pos digits.decimal]
  cases text with
  | nil => rfl
  | cons c text => simp [absent c rfl]

/-- The digits at the front of a text. -/
def front (text : List Char) : DigitRun :=
  ⟨text.takeWhile Char.isDigit, List.all_eq_true.mp List.all_takeWhile⟩

theorem front_append (text : List Char) :
    (front text).text ++ text.drop (front text).text.length = text :=
  List.prefix_iff_eq_append.mp (List.takeWhile_prefix _)

theorem readDigits?_text (digits : DigitRun) : readDigits? 10 digits.text = some digits.value :=
  readDigits?_eq_some (areDigits_of_isDigit digits.decimal)

theorem unsigned (digits : DigitRun) (nonempty : digits.text ≠ []) (text : List Char) :
    SignMark.Absent (digits.text ++ text) := by
  obtain ⟨c, rest, written⟩ := List.exists_cons_of_ne_nil nonempty
  have digit : c.isDigit = true := digits.decimal c (by simp [written])
  have other : c ∉ ['+', '-'] := not_mem_of_class digit (by decide)
  rw [written]
  rintro _ ⟨⟩
  simpa using other

end DigitRun

theorem toLower_of_isDigit {c : Char} (digit : c.isDigit = true) : c.toLower = c := by
  have each : ∀ code ≤ '9'.toNat, '0'.toNat ≤ code →
      (Char.ofNat code).toLower = Char.ofNat code := by decide
  obtain ⟨least, most⟩ := Char.isDigit_iff_toNat.mp digit
  rw [← Char.ofNat_toNat c]
  exact each c.toNat most least

namespace ScaleMark

theorem length_le (scale : ScaleMark) (rest : List Char) :
    scale.text.length ≤ decimalExponentLength (scale.text ++ rest) := by
  have letter : (scale.letter == 'e' || scale.letter == 'E') = true := by
    simpa using scale.known
  have unsigned := scale.digits.unsigned scale.written rest
  have taken := scale.digits.takeWhile_append rest
  have nonempty : ¬ scale.digits.text ++ rest.takeWhile Char.isDigit = [] := by
    simp [scale.written]
  simp only [text, List.cons_append, List.append_assoc, decimalExponentLength, letter, if_true,
    scale.sign.length_append unsigned, List.drop_left, taken, if_neg nonempty]
  simp only [List.length_cons, List.length_append]
  omega

theorem readExponent?_text (scale : ScaleMark) :
    readExponent? scale.text = some scale.exponent := by
  have letter : (scale.letter == 'e' || scale.letter == 'E') = true := by
    simpa using scale.known
  have unsigned := scale.digits.unsigned scale.written []
  rw [List.append_nil] at unsigned
  simp [text, readExponent?, letter, scale.sign.takeSign_append unsigned, scale.written,
    scale.digits.readDigits?_text, exponent]

theorem exists_append {text : List Char} (scaled : decimalExponentLength text ≠ 0) :
    ∃ (scale : ScaleMark) (rest : List Char), text = scale.text ++ rest ∧
      scale.text.length = decimalExponentLength text := by
  cases text with
  | nil => exact absurd rfl scaled
  | cons letter text =>
      obtain ⟨sign, rest, rfl, length⟩ := SignMark.exists_append text
      simp only [decimalExponentLength, length, List.drop_left] at scaled ⊢
      split at scaled
      · rename_i known
        split at scaled
        · exact absurd rfl scaled
        · rename_i written
          let digits := DigitRun.front rest
          refine ⟨⟨letter, sign, digits, by simpa using known, written⟩,
            rest.drop digits.text.length, ?_, ?_⟩
          · simp [ScaleMark.text, digits, DigitRun.front_append rest]
          · simp only [ScaleMark.text, digits, DigitRun.front, known, if_true, if_neg written,
              List.length_cons, List.length_append]
            omega
      · exact absurd rfl scaled

end ScaleMark

/-! The number at the front of a text. -/

/-- The extent of a number without a sign. -/
def unsignedExtent? (text : List Char) : Option NumberExtent :=
  let whole := text.takeWhile Char.isDigit
  let fraction := fractionDigits? (text.drop whole.length)
  if whole = [] ∧ fraction.getD [] = [] then none
  else
    let point := (fraction.map fun digits => digits.length + 1).getD 0
    let exponent := decimalExponentLength (text.drop (whole.length + point))
    some ⟨whole.length + point + exponent, fraction.isSome || exponent != 0⟩

theorem read?_append {sign : SignMark} {text : List Char}
    (length : (if (sign.text ++ text).head? = some '+' ∨ (sign.text ++ text).head? = some '-'
      then 1 else 0) = sign.text.length) :
    NumberExtent.read? (sign.text ++ text) =
      (unsignedExtent? text).map fun extent =>
        ⟨sign.text.length + extent.length, extent.isFloat⟩ := by
  simp only [NumberExtent.read?, length, List.drop_left, Nat.add_assoc, List.drop_length_add_append,
    unsignedExtent?]
  split <;> rfl

namespace Numeral

variable {numeral other : Numeral} {text : List Char}

/-- The number without its sign. -/
def unsigned (numeral : Numeral) : List Char :=
  numeral.whole.text ++ (numeral.fractionText ++ numeral.scaleText)

/-- What a power of ten means for the digits and the point before it: they end there. -/
structure Scaled (scale rest : List Char) : Prop where
  undigited : DigitRun.Absent (scale ++ rest)
  pointless : fractionDigits? (scale ++ rest) = none
  length : scale.length ≤ decimalExponentLength (scale ++ rest)

theorem scaled_or_eq_nil (numeral : Numeral) (rest : List Char) :
    numeral.scaleText = [] ∨ Scaled numeral.scaleText rest := by
  unfold scaleText
  cases numeral.scale with
  | none => exact .inl rfl
  | some scale =>
      have letter : scale.letter.isDigit = false ∧ scale.letter ≠ '.' := by
        obtain is | is := scale.known <;> rw [is] <;> decide
      refine .inr ⟨?_, ?_, scale.length_le rest⟩
      · rintro _ ⟨⟩
        exact letter.1
      · change fractionDigits? (scale.letter :: _) = none
        unfold fractionDigits?
        split
        · rename_i same
          exact absurd (List.cons.inj same).1 letter.2
        · rfl

theorem length_le_of_pointless {whole : DigitRun} {scale : List Char} (rest : List Char)
    (written : whole.text ≠ []) (scaled : scale = [] ∨ Scaled scale rest) :
    ∃ extent, unsignedExtent? (whole.text ++ (scale ++ rest)) = some extent ∧
      whole.text.length + scale.length ≤ extent.length := by
  obtain rfl | scaled := scaled
  · simp [unsignedExtent?, whole.takeWhile_append, written]
    omega
  · have taken := whole.takeWhile_append (scale ++ rest)
    rw [DigitRun.takeWhile_of_absent scaled.undigited, List.append_nil] at taken
    have length := scaled.length
    simp [unsignedExtent?, taken, written, scaled.pointless]
    omega

theorem length_le_of_pointed {whole digits : DigitRun} {scale : List Char} (rest : List Char)
    (written : whole.text ≠ [] ∨ digits.text ≠ []) (scaled : scale = [] ∨ Scaled scale rest) :
    ∃ extent, unsignedExtent? (whole.text ++ '.' :: (digits.text ++ (scale ++ rest))) =
      some extent ∧
        whole.text.length + (digits.text.length + 1 + scale.length) ≤ extent.length := by
  have point : ('.' :: (digits.text ++ (scale ++ rest))).takeWhile Char.isDigit = [] := rfl
  have taken := whole.takeWhile_append ('.' :: (digits.text ++ (scale ++ rest)))
  rw [point, List.append_nil] at taken
  have after := digits.takeWhile_append (scale ++ rest)
  have nonempty : ¬ (whole.text = [] ∧
      digits.text ++ (scale ++ rest).takeWhile Char.isDigit = []) := by
    simp only [List.append_eq_nil_iff]
    rintro ⟨first, second, -⟩
    exact written.elim (· first) (· second)
  refine ⟨_, by
    simp only [unsignedExtent?, taken, List.drop_left, fractionDigits?, after, Option.getD_some,
      if_neg nonempty, Option.map_some, List.drop_length_add_append, List.drop_succ_cons]
    rfl, ?_⟩
  obtain rfl | scaled := scaled
  · simp only [List.length_append, List.length_nil]
    omega
  · have length := scaled.length
    rw [DigitRun.takeWhile_of_absent scaled.undigited, List.append_nil, List.drop_left]
    dsimp only
    omega

theorem length_le_unsignedExtent? (numeral : Numeral) (rest : List Char) :
    ∃ extent, unsignedExtent? (numeral.unsigned ++ rest) = some extent ∧
      numeral.unsigned.length ≤ extent.length := by
  have scaled := numeral.scaled_or_eq_nil rest
  have written := numeral.written
  simp only [unsigned, fractionText, List.append_assoc, List.length_append]
  cases fraction : numeral.fraction with
  | none =>
      rw [fraction] at written
      have nonempty : numeral.whole.text ≠ [] := by simpa using written
      simpa using length_le_of_pointless rest nonempty scaled
  | some digits =>
      rw [fraction] at written
      have nonempty : numeral.whole.text ≠ [] ∨ digits.text ≠ [] := by simpa using written
      simpa using length_le_of_pointed rest nonempty scaled

theorem signless (numeral : Numeral) (rest : List Char) :
    SignMark.Absent (numeral.unsigned ++ rest) := by
  rw [unsigned, List.append_assoc]
  obtain nonempty | ⟨digits, pointed, -⟩ := numeral.written
  · exact numeral.whole.unsigned nonempty _
  · by_cases empty : numeral.whole.text = []
    · rw [empty, List.nil_append, fractionText, Option.mem_def.mp pointed]
      rintro _ ⟨⟩
      decide
    · exact numeral.whole.unsigned empty _

theorem length_le_extent (numeral : Numeral) (rest : List Char) :
    ∃ extent, NumberExtent.read? (numeral.solid ++ rest) = some extent ∧
      numeral.solid.length ≤ extent.length := by
  obtain ⟨extent, read, length⟩ := numeral.length_le_unsignedExtent? rest
  have signed := numeral.sign.length_append (numeral.signless rest)
  have solid : numeral.solid ++ rest = numeral.sign.text ++ (numeral.unsigned ++ rest) := by
    simp [Numeral.solid, unsigned]
  refine ⟨_, by rw [solid, read?_append signed, read]; rfl, ?_⟩
  simp only [Numeral.solid, List.length_append, unsigned] at length ⊢
  omega

/-- What stands at the front as a fraction. -/
theorem exists_fraction (text : List Char) : ∃ fraction : Option DigitRun,
    fractionDigits? text = fraction.map DigitRun.text ∧
      (fraction.elim [] fun digits => '.' :: digits.text) <+: text := by
  unfold fractionDigits?
  split
  · rename_i rest
    refine ⟨some (.front rest), rfl, ?_⟩
    exact (List.prefix_append_right_inj ['.']).mpr (List.takeWhile_prefix _)
  · exact ⟨none, rfl, List.nil_prefix⟩

/-- What stands at the front as a power of ten. -/
theorem exists_scale (text : List Char) : ∃ scale : Option ScaleMark,
    scale.elim [] ScaleMark.text <+: text ∧
      (scale.elim [] ScaleMark.text).length = decimalExponentLength text ∧
      scale.isNone = (decimalExponentLength text == 0) := by
  by_cases unscaled : decimalExponentLength text = 0
  · exact ⟨.none, List.nil_prefix, unscaled.symm, by simp [unscaled]⟩
  · obtain ⟨scale, rest, rfl, length⟩ := ScaleMark.exists_append unscaled
    exact ⟨some scale, List.prefix_append _ _, length, by simpa using unscaled⟩

/-- What is read is a number without blanks before it. -/
theorem exists_of_extent {extent : NumberExtent} (read : NumberExtent.read? text = some extent) :
    ∃ numeral : Numeral, numeral.blanks = [] ∧ numeral.solid <+: text ∧
      numeral.solid.length = extent.length ∧ numeral.isInteger = !extent.isFloat := by
  obtain ⟨sign, rest, rfl, length⟩ := SignMark.exists_append text
  rw [read?_append length] at read
  obtain ⟨unsigned, found, rfl⟩ := Option.map_eq_some_iff.mp read
  let whole := DigitRun.front rest
  obtain ⟨after, parted⟩ : ∃ after, rest = whole.text ++ after :=
    ⟨_, (DigitRun.front_append rest).symm⟩
  have digits : rest.takeWhile Char.isDigit = whole.text := rfl
  obtain ⟨fraction, pointed, last, parts⟩ := exists_fraction after
  obtain ⟨scale, scaled, size, present⟩ := exists_scale last
  have point : ((fraction.map DigitRun.text).map fun digits => digits.length + 1).getD 0 =
      (fraction.elim [] fun digits => '.' :: digits.text).length := by
    cases fraction <;> rfl
  simp only [unsignedExtent?, digits] at found
  rw [parted, List.drop_left, List.drop_length_add_append, pointed, point, ← parts,
    List.drop_left] at found
  split at found
  · cases found
  · rename_i written
    obtain rfl := Option.some.inj found
    have nonempty : whole.text ≠ [] ∨ ∃ digits ∈ fraction, digits.text ≠ [] := by
      refine (not_and_or.mp written).imp_right fun written => ?_
      cases fraction with
      | none => exact absurd rfl written
      | some digits => exact ⟨digits, rfl, written⟩
    refine ⟨⟨[], sign, whole, fraction, scale, nofun, nonempty⟩, rfl, ?_, ?_, ?_⟩
    · rw [parted, ← parts]
      simpa [solid, fractionText, scaleText, List.prefix_append_right_inj] using scaled
    · simp only [solid, fractionText, scaleText, List.length_append, size]
      omega
    · simp only [isInteger, present, Option.isSome_map]
      cases fraction <;> simp [bne]

/-! The value of a number. -/

theorem takeSign_solid (numeral : Numeral) :
    takeSign numeral.solid = (numeral.sign.isNegative, numeral.unsigned) := by
  have signless := numeral.signless []
  rw [List.append_nil] at signless
  exact numeral.sign.takeSign_append signless

theorem readInt64?_solid (integral : numeral.isInteger = true) :
    readInt64? 10 numeral.solid = toInt64? numeral.integer := by
  obtain ⟨pointless, unscaled⟩ := Bool.and_eq_true_iff.mp integral
  rw [Option.isNone_iff_eq_none] at pointless unscaled
  have whole : numeral.unsigned = numeral.whole.text := by
    simp [unsigned, fractionText, scaleText, pointless, unscaled]
  have written : numeral.whole.text ≠ [] := by simpa [pointless] using numeral.written
  unfold readInt64?
  simp only [takeSign_solid, whole, written, if_false, numeral.whole.readDigits?_text]
  rfl

theorem scaleText_ends (numeral : Numeral) :
    DigitRun.Absent numeral.scaleText ∧ ∀ rest, numeral.scaleText ≠ '.' :: rest := by
  obtain unscaled | scaled := numeral.scaled_or_eq_nil []
  · rw [unscaled]
    exact ⟨nofun, nofun⟩
  · have undigited := scaled.undigited
    have pointless := scaled.pointless
    rw [List.append_nil] at undigited pointless
    refine ⟨undigited, fun rest same => ?_⟩
    rw [same] at pointless
    cases pointless

theorem readExponent?_scaleText (numeral : Numeral) :
    readExponent? numeral.scaleText = some (numeral.scale.elim 0 ScaleMark.exponent) := by
  unfold scaleText
  cases numeral.scale with
  | none => rfl
  | some scale => exact scale.readExponent?_text

theorem read?_unsigned (numeral : Numeral) : Decimal.read? numeral.unsigned =
    some ⟨numberOf 10 (numeral.whole.text ++ numeral.afterPoint),
      numeral.scale.elim 0 ScaleMark.exponent - numeral.afterPoint.length⟩ := by
  have exponent := numeral.readExponent?_scaleText
  obtain ⟨undigited, pointless⟩ := numeral.scaleText_ends
  have stop := DigitRun.takeWhile_of_absent undigited
  have written := numeral.written
  unfold Decimal.read? unsigned fractionText afterPoint
  cases fraction : numeral.fraction with
  | none =>
      have nonempty : numeral.whole.text ≠ [] := by simpa [fraction] using written
      have digits := numeral.whole.readDigits?_text
      -- No point begins a power of ten, so there are no more digits.
      simp [numeral.whole.takeWhile_append, stop, nonempty, digits, exponent, DigitRun.value]
  | some digits =>
      have nonempty : ¬ (numeral.whole.text = [] ∧ digits.text = []) := by
        rw [not_and_or]
        simpa [fraction] using written
      have point : ('.' :: (digits.text ++ numeral.scaleText)).takeWhile Char.isDigit = [] := rfl
      have decimal : ∀ c ∈ numeral.whole.text ++ digits.text, c.isDigit = true :=
        fun c among => (List.mem_append.mp among).elim (numeral.whole.decimal c) (digits.decimal c)
      have read := readDigits?_eq_some (areDigits_of_isDigit decimal)
      simp [numeral.whole.takeWhile_append, point, digits.takeWhile_append,
        digits.dropWhile_append undigited, stop, nonempty, read, exponent]

theorem unsigned_headed (numeral : Numeral) :
    ∃ c rest, numeral.unsigned = c :: rest ∧ (c.isDigit = true ∨ c = '.') := by
  unfold unsigned
  cases digits : numeral.whole.text with
  | cons c rest =>
      exact ⟨c, _, rfl, .inl (numeral.whole.decimal c (by simp [digits]))⟩
  | nil =>
      obtain nonempty | ⟨after, pointed, -⟩ := numeral.written
      · exact absurd digits nonempty
      · rw [fractionText, Option.mem_def.mp pointed]
        exact ⟨'.', _, rfl, .inr rfl⟩

theorem readFloat?_solid (numeral : Numeral) :
    readFloat? numeral.solid = some numeral.double := by
  obtain ⟨c, rest, headed, front⟩ := numeral.unsigned_headed
  have lower : c.toLower ≠ 'i' ∧ c.toLower ≠ 'n' := by
    obtain digit | rfl := front
    · rw [toLower_of_isDigit digit]
      have apart : c ∉ ['i', 'n'] := not_mem_of_class digit (by decide)
      simpa using apart
    · decide
  have worded {word : String} {d : Char} {more : List Char}
      (same : String.ofList (numeral.unsigned.map Char.toLower) = word)
      (spelled : word.toList = d :: more) : c.toLower = d := by
    rw [← same, String.toList_ofList, headed] at spelled
    exact (List.cons.inj spelled).1
  unfold readFloat?
  simp only [takeSign_solid, read?_unsigned, Option.map_some]
  split
  · rename_i same
    exact absurd (worded same rfl) lower.1
  · rename_i same
    exact absurd (worded same rfl) lower.1
  · rename_i same
    exact absurd (worded same rfl) lower.2
  · rfl

theorem readNumber_solid (numeral : Numeral) :
    readNumber numeral.solid (!numeral.isInteger) = numeral.number := by
  simp only [readNumber, readFloat?_solid, Option.getD_some, number]
  cases integral : numeral.isInteger with
  | false => simp
  | true =>
      rw [readInt64?_solid integral, toInt64?]
      by_cases fits : int64Min ≤ numeral.integer ∧ numeral.integer ≤ int64Max <;> simp [fits]

/-! The characters of a number. -/

/-- The characters of a number that are no digits. -/
def marks : List Char :=
  ['+', '-', '.', 'e', 'E']

theorem mem_solid (numeral : Numeral) :
    ∀ c ∈ numeral.solid, c.isDigit = true ∨ c ∈ marks := by
  have signs (sign : SignMark) : ∀ c ∈ sign.text, c ∈ marks := by
    obtain ⟨mark, known⟩ := sign
    obtain rfl | rfl | rfl := known <;> simp [marks]
  have fraction : ∀ c ∈ numeral.fractionText, c.isDigit = true ∨ c ∈ marks := by
    unfold fractionText
    cases numeral.fraction with
    | none => nofun
    | some digits =>
        exact List.forall_mem_cons.mpr ⟨by decide, fun c among => .inl (digits.decimal c among)⟩
  have scale : ∀ c ∈ numeral.scaleText, c.isDigit = true ∨ c ∈ marks := by
    unfold scaleText
    cases numeral.scale with
    | none => nofun
    | some scale =>
        refine List.forall_mem_cons.mpr ⟨.inr ?_, List.forall_mem_append.mpr ⟨?_, ?_⟩⟩
        · obtain is | is := scale.known <;> rw [is] <;> decide
        · exact fun c among => .inr (signs scale.sign c among)
        · exact fun c among => .inl (scale.digits.decimal c among)
  refine List.forall_mem_append.mpr ⟨fun c among => .inr (signs _ c among), ?_⟩
  refine List.forall_mem_append.mpr ⟨fun c among => .inl (numeral.whole.decimal c among), ?_⟩
  exact List.forall_mem_append.mpr ⟨fraction, scale⟩

theorem not_blank (numeral : Numeral) : ∀ c ∈ numeral.solid, isSeparatorSpace c = false := by
  intro c among
  obtain digit | mark := numeral.mem_solid c among
  · have other : c ∉ [' ', '\t', '\r', '\n', '\x0b', '\x0c'] :=
      not_mem_of_class digit (by decide)
    simp only [List.mem_cons, List.not_mem_nil, not_or] at other
    simp [isSeparatorSpace, other]
  · have each : ∀ c ∈ marks, isSeparatorSpace c = false := by simp [marks, isSeparatorSpace]
    exact each c mark

theorem toNat_lt_of_blank {c : Char} (blank : isSeparatorSpace c = true) : c.toNat < 128 := by
  have each : ∀ c ∈ [' ', '\t', '\r', '\n', '\x0b', '\x0c'], c.toNat < 128 := by simp
  simp only [isSeparatorSpace, Bool.or_eq_true, beq_iff_eq, or_assoc] at blank
  exact each c (by simpa using blank)

theorem ascii (numeral : Numeral) : ∀ c ∈ numeral.text, c.toNat < 128 := by
  refine List.forall_mem_append.mpr ⟨fun c among => ?_, fun c among => ?_⟩
  · exact toNat_lt_of_blank (numeral.blank c among)
  · obtain digit | mark := numeral.mem_solid c among
    · have most := (Char.isDigit_iff_toNat.mp digit).2
      exact Nat.lt_of_le_of_lt most (by decide)
    · have each : ∀ c ∈ marks, c.toNat < 128 := by simp [marks]
      exact each c mark

/-- A point and a power of ten can be seen in the text. -/
theorem isInteger_eq_true_iff (numeral : Numeral) :
    numeral.isInteger = true ↔ ∀ c ∈ numeral.solid, c ∉ ['.', 'e', 'E'] := by
  constructor
  · intro integral
    obtain ⟨pointless, unscaled⟩ := Bool.and_eq_true_iff.mp integral
    rw [Option.isNone_iff_eq_none] at pointless unscaled
    have solid : numeral.solid = numeral.sign.text ++ numeral.whole.text := by
      simp [Numeral.solid, fractionText, scaleText, pointless, unscaled]
    rw [solid]
    refine List.forall_mem_append.mpr ⟨?_, fun c among => ?_⟩
    · obtain is | is | is := numeral.sign.known <;> simp [is]
    · exact not_mem_of_class (numeral.whole.decimal c among) (by decide)
  · intro plain
    refine Bool.and_eq_true_iff.mpr ⟨?_, ?_⟩ <;> rw [Option.isNone_iff_eq_none]
    · cases pointed : numeral.fraction with
      | none => rfl
      | some digits =>
          refine absurd ?_ (plain '.' (by simp [solid, fractionText, pointed]))
          decide
    · cases scaled : numeral.scale with
      | none => rfl
      | some scale =>
          have among : scale.letter ∈ numeral.solid := by
            simp [solid, scaleText, scaled, ScaleMark.text]
          refine absurd ?_ (plain _ among)
          obtain is | is := scale.known <;> rw [is] <;> decide

theorem number_eq_of_solid_eq (same : numeral.solid = other.solid) :
    numeral.number = other.number := by
  have integers : numeral.isInteger = other.isInteger := by
    rw [Bool.eq_iff_iff, isInteger_eq_true_iff, isInteger_eq_true_iff, same]
  rw [← readNumber_solid, ← readNumber_solid, integers, same]

end Numeral

/-! Bytes and characters. -/

theorem byteChars_injective {bytes others : Bytes} (same : byteChars bytes = byteChars others) :
    bytes = others := by
  have number (b : UInt8) : (Char.ofNat b.toNat).toNat = b.toNat := by
    have valid : b.toNat.isValidChar := .inl (Nat.lt_trans b.toNat_lt (by decide))
    rw [Char.ofNat, dif_pos valid]
    rfl
  refine (List.map_inj_right fun b d same => ?_).mp same
  have numbers := congrArg Char.toNat same
  rw [number, number] at numbers
  exact UInt8.toNat_inj.mp numbers

/-- A string that starts with ASCII characters. -/
theorem encode_prefix_iff {text : List Char} (ascii : ∀ c ∈ text, c.toNat < 128) {bytes : Bytes} :
    Utf8.encode text <+: bytes ↔ text <+: byteChars bytes := by
  constructor
  · rintro ⟨rest, rfl⟩
    have whole : byteChars (Utf8.encode text ++ rest) = text ++ byteChars rest :=
      List.map_append.trans (congrArg (· ++ byteChars rest) (byteChars_encode ascii))
    exact ⟨byteChars rest, whole.symm⟩
  · intro front
    obtain ⟨first, among, same⟩ := List.prefix_map_iff.mp front
    have encoded : Utf8.encode text = first :=
      byteChars_injective ((byteChars_encode ascii).trans same)
    rwa [encoded]

namespace Numeral

variable {numeral other : Numeral} {chars rest : List Char} {bytes : Bytes}

theorem begins_iff : numeral.Begins bytes ↔ numeral.text <+: byteChars bytes :=
  encode_prefix_iff numeral.ascii

theorem fills_iff : numeral.Fills bytes ↔
    ∃ blanks, (∀ c ∈ blanks, isSeparatorSpace c = true) ∧
      byteChars bytes = numeral.text ++ blanks := by
  refine exists_congr fun blanks => and_congr_right fun blank => ?_
  have ascii : ∀ c ∈ numeral.text ++ blanks, c.toNat < 128 :=
    List.forall_mem_append.mpr ⟨numeral.ascii, fun c among => toNat_lt_of_blank (blank c among)⟩
  constructor
  · rintro rfl
    exact byteChars_encode ascii
  · intro same
    exact byteChars_injective (same.trans (byteChars_encode ascii).symm)

theorem exists_cons_solid (numeral : Numeral) :
    ∃ c rest, numeral.solid = c :: rest ∧ isSeparatorSpace c = false := by
  have nonempty : numeral.solid ≠ [] := by
    obtain ⟨c, rest, headed, -⟩ := numeral.unsigned_headed
    intro nothing
    have unsigned : numeral.unsigned = [] := (List.append_eq_nil_iff.mp nothing).2
    exact absurd (headed.symm.trans unsigned) (List.cons_ne_nil _ _)
  obtain ⟨c, rest, solid⟩ := List.exists_cons_of_ne_nil nonempty
  exact ⟨c, rest, solid, numeral.not_blank c (by simp [solid])⟩

/-- The blanks before a number are those at the front of the string. -/
theorem takeWhile_text (numeral : Numeral) (rest : List Char) :
    (numeral.text ++ rest).takeWhile isSeparatorSpace = numeral.blanks ∧
      (numeral.text ++ rest).dropWhile isSeparatorSpace = numeral.solid ++ rest := by
  obtain ⟨c, more, solid, solidly⟩ := numeral.exists_cons_solid
  rw [text, List.append_assoc, List.takeWhile_append_of_pos numeral.blank,
    List.dropWhile_append_of_pos numeral.blank, solid]
  simp [solidly]

theorem solid_length_le {extent : NumberExtent} (begins : numeral.Begins bytes)
    (read : NumberExtent.read? ((byteChars bytes).dropWhile isSeparatorSpace) = some extent) :
    numeral.solid.length ≤ extent.length := by
  obtain ⟨rest, whole⟩ := begins_iff.mp begins
  obtain ⟨found, same, length⟩ := numeral.length_le_extent rest
  rw [← whole, (numeral.takeWhile_text rest).2, same] at read
  exact Option.some.inj read ▸ length

theorem exists_extent (begins : numeral.Begins bytes) :
    ∃ extent, NumberExtent.read? ((byteChars bytes).dropWhile isSeparatorSpace) = some extent := by
  obtain ⟨rest, whole⟩ := begins_iff.mp begins
  obtain ⟨extent, same, -⟩ := numeral.length_le_extent rest
  rw [← whole, (numeral.takeWhile_text rest).2]
  exact ⟨extent, same⟩

theorem length_text (begins : numeral.Begins bytes) : numeral.text.length =
    ((byteChars bytes).takeWhile isSeparatorSpace).length + numeral.solid.length := by
  obtain ⟨rest, whole⟩ := begins_iff.mp begins
  rw [← whole, (numeral.takeWhile_text rest).1, text, List.length_append]

/-- How a string is classified: by the longest number that it starts with and by what comes
after that. -/
theorem classify_cases (bytes : Bytes) :
    NumericString.classify bytes = .notNumeric ∧ (∀ numeral : Numeral, ¬ numeral.Begins bytes) ∨
    ∃ (numeral : Numeral) (rest : List Char), numeral.IsLongest bytes ∧
      byteChars bytes = numeral.text ++ rest ∧
      NumericString.classify bytes =
        if rest.all isSeparatorSpace then .whole numeral.number else .leading numeral.number := by
  let chars := (byteChars bytes).dropWhile isSeparatorSpace
  cases read : NumberExtent.read? chars with
  | none =>
      refine .inl ⟨by simp only [NumericString.classify, read, chars], fun numeral begins => ?_⟩
      obtain ⟨extent, found⟩ := exists_extent begins
      exact absurd (read.symm.trans found) nofun
  | some extent =>
      obtain ⟨found, -, front, length, integral⟩ := exists_of_extent read
      let numeral : Numeral :=
        { found with
          blanks := (byteChars bytes).takeWhile isSeparatorSpace
          blank := List.all_eq_true.mp List.all_takeWhile }
      have solid : numeral.solid = found.solid := rfl
      have taken : chars.take extent.length = numeral.solid := by
        rw [← length]
        exact (List.prefix_iff_eq_take.mp front).symm
      have whole : byteChars bytes = numeral.text ++ chars.drop extent.length := by
        rw [text, ← taken, List.append_assoc, List.take_append_drop,
          List.takeWhile_append_dropWhile]
      have begins : numeral.Begins bytes := begins_iff.mpr ⟨_, whole.symm⟩
      refine .inr ⟨numeral, chars.drop extent.length, ⟨begins, fun other starts => ?_⟩, whole, ?_⟩
      · have shorter := solid_length_le starts read
        rw [length_text starts, length_text begins, solid, length]
        exact Nat.add_le_add_left shorter _
      · have number : readNumber numeral.solid extent.isFloat = numeral.number := by
          rw [← numeral.readNumber_solid, ← Bool.not_not extent.isFloat, ← integral]
          rfl
        simp only [NumericString.classify, chars] at read taken ⊢
        simp only [read, taken, number]

theorem solid_eq_dropWhile (numeral : Numeral) :
    numeral.solid = numeral.text.dropWhile isSeparatorSpace := by
  have split := (numeral.takeWhile_text []).2
  rw [List.append_nil, List.append_nil] at split
  exact split.symm

/-- The longest number of a string is the only one of its length. -/
theorem IsLongest.unique (longest : numeral.IsLongest bytes) (also : other.IsLongest bytes) :
    numeral.text = other.text ∧ numeral.number = other.number := by
  have shorter := also.2 numeral longest.1
  have longer := longest.2 other also.1
  have front := List.prefix_of_prefix_length_le (begins_iff.mp longest.1) (begins_iff.mp also.1)
    shorter
  have texts : numeral.text = other.text := front.eq_of_length (Nat.le_antisymm shorter longer)
  refine ⟨texts, number_eq_of_solid_eq ?_⟩
  rw [solid_eq_dropWhile, solid_eq_dropWhile, texts]

/-- No number has a blank after its first digit. -/
theorem Fills.isLongest (fills : numeral.Fills bytes) : numeral.IsLongest bytes := by
  obtain ⟨blanks, blank, whole⟩ := fills_iff.mp fills
  have begins : numeral.Begins bytes := begins_iff.mpr ⟨blanks, whole.symm⟩
  refine ⟨begins, fun other starts => ?_⟩
  obtain ⟨rest, same⟩ := begins_iff.mp starts
  have solids : other.solid ++ rest = numeral.solid ++ blanks := by
    rw [← (other.takeWhile_text rest).2, ← (numeral.takeWhile_text blanks).2, same, whole]
  rw [length_text starts, length_text begins]
  apply Nat.add_le_add_left
  obtain shorter | ⟨more, longer⟩ := List.prefix_or_prefix_of_prefix
    (List.prefix_append other.solid rest) (solids ▸ List.prefix_append numeral.solid blanks)
  · exact shorter.length_le
  · cases more with
    | nil => exact Nat.le_of_eq (by rw [← longer, List.append_nil])
    | cons c more =>
        have solid : isSeparatorSpace c = false := other.not_blank c (by simp [← longer])
        have after : c :: (more ++ rest) = blanks := by
          rw [← longer, List.append_assoc] at solids
          exact List.append_cancel_left solids
        rw [blank c (by simp [← after])] at solid
        cases solid

theorem number_eq_int_iff (numeral : Numeral) (i : Int64) :
    numeral.number = .int i ↔ numeral.isInteger = true ∧ i.toInt = numeral.integer := by
  unfold number
  rw [← toInt64?_eq_some_iff, toInt64?]
  by_cases fits : int64Min ≤ numeral.integer ∧ numeral.integer ≤ int64Max <;>
    cases numeral.isInteger <;> simp [fits]

/-- An integer as it is written. -/
def ofInt (value : Int) : Numeral where
  blanks := []
  sign := ⟨if value < 0 then ['-'] else [], by split <;> simp⟩
  whole := ⟨Nat.toDigits 10 value.natAbs, isDigit_of_mem_toDigits⟩
  fraction := none
  scale := none
  blank := nofun
  written := .inl Nat.toDigits_ne_nil

theorem text_ofInt (value : Int) : (ofInt value).text = (intText value).toList := by
  simp [text, solid, ofInt, fractionText, scaleText, toList_intText]

theorem integer_ofInt (value : Int) : (ofInt value).integer = value := by
  have magnitude : (ofInt value).whole.value = value.natAbs :=
    Option.some.inj ((ofInt value).whole.readDigits?_text.symm.trans (readDigits?_toDigits _))
  have sign : (ofInt value).sign.isNegative = decide (value < 0) := by
    by_cases negative : value < 0 <;> simp [ofInt, SignMark.isNegative, negative]
  rw [integer, magnitude, sign]
  by_cases negative : value < 0
  · simp only [negative, decide_true, if_true]
    omega
  · simp only [negative, decide_false, Bool.false_eq_true, if_false]
    omega

theorem number_ofInt (i : Int64) : (ofInt i.toInt).number = .int i :=
  (number_eq_int_iff _ i).mpr ⟨rfl, (integer_ofInt _).symm⟩

theorem ofInt_fills (value : Int) : (ofInt value).Fills (Utf8.ofString (intText value)) := by
  refine ⟨[], nofun, ?_⟩
  rw [List.append_nil, text_ofInt, ← Utf8.ofString_ofList, String.ofList_toList]

end Numeral

/-! Strings. -/

section Strings

variable {bytes : Bytes} {number : Number} {numeral : Numeral} {rest : List Char}

/-- What comes after the longest number tells whether a number fills the string. -/
theorem exists_fills_iff (longest : numeral.IsLongest bytes)
    (whole : byteChars bytes = numeral.text ++ rest) :
    (∃ other : Numeral, other.Fills bytes) ↔ rest.all isSeparatorSpace = true := by
  rw [List.all_eq_true]
  constructor
  · rintro ⟨other, fills⟩
    obtain ⟨blanks, blank, same⟩ := Numeral.fills_iff.mp fills
    rw [whole, (longest.unique fills.isLongest).1] at same
    rwa [List.append_cancel_left same]
  · exact fun blank => ⟨numeral, Numeral.fills_iff.mpr ⟨rest, blank, whole⟩⟩

theorem classify_eq_whole_iff : NumericString.classify bytes = .whole number ↔
    ∃ numeral : Numeral, numeral.Fills bytes ∧ numeral.number = number := by
  obtain ⟨classified, unread⟩ | ⟨longest, rest, is, whole, classified⟩ :=
    Numeral.classify_cases bytes
  · rw [classified]
    exact ⟨nofun, fun ⟨numeral, fills, _⟩ => absurd fills.isLongest.1 (unread numeral)⟩
  · have filled := exists_fills_iff is whole
    rw [classified]
    constructor
    · intro same
      split at same
      · rename_i blank
        obtain ⟨other, fills⟩ := filled.mpr blank
        refine ⟨other, fills, ?_⟩
        rw [← (is.unique fills.isLongest).2]
        exact NumericString.whole.inj same
      · cases same
    · rintro ⟨other, fills, rfl⟩
      rw [if_pos (filled.mp ⟨other, fills⟩), (is.unique fills.isLongest).2]

theorem classify_eq_leading_iff : NumericString.classify bytes = .leading number ↔
    (¬ ∃ numeral : Numeral, numeral.Fills bytes) ∧
      ∃ numeral : Numeral, numeral.IsLongest bytes ∧ numeral.number = number := by
  obtain ⟨classified, unread⟩ | ⟨longest, rest, is, whole, classified⟩ :=
    Numeral.classify_cases bytes
  · rw [classified]
    exact ⟨nofun, fun ⟨_, numeral, longest, _⟩ => absurd longest.1 (unread numeral)⟩
  · have filled := exists_fills_iff is whole
    rw [classified, filled]
    constructor
    · intro same
      split at same
      · cases same
      · rename_i more
        exact ⟨more, longest, is, NumericString.leading.inj same⟩
    · rintro ⟨more, other, also, rfl⟩
      rw [if_neg more, (is.unique also).2]

theorem classify_eq_notNumeric_iff : NumericString.classify bytes = .notNumeric ↔
    ¬ ∃ numeral : Numeral, numeral.Begins bytes := by
  obtain ⟨classified, unread⟩ | ⟨longest, rest, is, whole, classified⟩ :=
    Numeral.classify_cases bytes
  · exact ⟨fun _ ⟨numeral, begins⟩ => unread numeral begins, fun _ => classified⟩
  · rw [classified]
    refine ⟨fun same => ?_, fun nothing => absurd ⟨longest, is.1⟩ nothing⟩
    split at same <;> cases same

end Strings

/-- A string is classified by the numbers that it starts with. It is numeric if one of them and
blanks make it up; otherwise the longest of them leads it, if there are any. A number is an
integer if it has neither a point nor a power of ten and fits; the decimal text of an integer is
that integer. -/
theorem numeric_strings_recognised (bytes : Bytes) :
    (∀ number, NumericString.classify bytes = .whole number ↔
      ∃ numeral : Numeral, numeral.Fills bytes ∧ numeral.number = number) ∧
    (∀ number, NumericString.classify bytes = .leading number ↔
      (¬ ∃ numeral : Numeral, numeral.Fills bytes) ∧
        ∃ numeral : Numeral, numeral.IsLongest bytes ∧ numeral.number = number) ∧
    (NumericString.classify bytes = .notNumeric ↔ ¬ ∃ numeral : Numeral, numeral.Begins bytes) ∧
    (∀ (numeral : Numeral) (i : Int64),
      numeral.number = .int i ↔ numeral.isInteger = true ∧ i.toInt = numeral.integer) ∧
    ∀ i : Int64, wholeNumber? (Utf8.ofString (intText i.toInt)) = some (.int i) := by
  refine ⟨fun _ => classify_eq_whole_iff, fun _ => classify_eq_leading_iff,
    classify_eq_notNumeric_iff, Numeral.number_eq_int_iff, fun i => ?_⟩
  have whole := classify_eq_whole_iff.mpr ⟨_, Numeral.ofInt_fills i.toInt, Numeral.number_ofInt i⟩
  rw [wholeNumber?, whole]

end StaticReflection
