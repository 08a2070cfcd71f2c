import StaticReflection.Proofs.Scanner.ByteHeredocs
import StaticReflection.Proofs.Scanner.ByteStrings

namespace StaticReflection

/-! Casts, punctuation and any token, read byte by byte. -/

open Text

variable {bytes : List UInt8} {pos : Nat} {text : Text}

theorem byteCast?_eq (here : RestAt bytes pos text) (opened : NarrowFor text 1) :
    byteCast? bytes pos = some ((lexCast? text).map (·.inBytes text)) := by
  have blanks := opened.add (.takeWhile isIndent_narrow (text.drop 1))
  unfold byteCast? lexCast?
  dsimp only
  rw [here.ahead_eq, opened.drop_shown, takeWhile_shown_of_narrow isIndent_narrow]
  generalize 1 + ((text.drop 1).takeWhile isIndent).length = wordStart at blanks ⊢
  have word := blanks.add (.takeWhile isAlpha_narrow (text.drop wordStart))
  have found := here.advance wordStart
  have written := found.cut_eq ((text.drop wordStart).takeWhile Char.isAlpha).length
  rw [blanks.width_eq, (NarrowFor.takeWhile isAlpha_narrow _).width_eq, take_length_takeWhile,
    Nat.add_assoc] at written
  rw [blanks.drop_shown, takeWhile_shown_of_narrow isAlpha_narrow, written]
  generalize wordStart + ((text.drop wordStart).takeWhile Char.isAlpha).length = wordEnd at word ⊢
  have close := word.add (.takeWhile isIndent_narrow (text.drop wordEnd))
  rw [word.drop_shown, takeWhile_shown_of_narrow isIndent_narrow]
  generalize wordEnd + ((text.drop wordEnd).takeWhile isIndent).length = closing at close ⊢
  have ends : text.shown[closing]? = some ')' ↔ text[closing]? = some ')' := by
    rw [close.getElem?_shown, head?_shown_eq_iff (by decide), List.head?_drop]
  simp only [ends, Option.bind_eq_bind, Option.bind_some, ne_eq]
  split
  · rfl
  · rename_i closed
    have whole : NarrowFor text (closing + 1) := by
      obtain ⟨rest, after⟩ := List.head?_eq_some_iff.mp
        (List.head?_drop.trans (Decidable.not_not.mp closed))
      exact close.add (after ▸ NarrowFor.zero.cons (by decide))
    cases castTypes.lookup _ with
    | none => rfl
    | some type =>
        simp only [Option.map_some, Option.bind_some, Option.pure_def, Lexeme.inBytes,
          whole.width_eq]

theorem punctuation_narrow : ∀ entry ∈ punctuation, AllNarrow entry.1.toList := by
  decide

theorem punctuation?_shown (text : Text) : punctuation? text.shown = punctuation? text := by
  unfold punctuation?
  congr 1
  exact List.find?_congr fun entry listed =>
    isPrefixOf_shown (punctuation_narrow entry listed) text

theorem Text.NarrowFor.punctuation {kind : TokenKind} {length : Nat}
    (found : punctuation? text = some (kind, length)) : NarrowFor text length := by
  obtain ⟨entry, among, equal⟩ := Option.map_eq_some_iff.mp found
  have front : entry.1.toList.isPrefixOf text = true :=
    List.find?_some (p := fun entry : String × TokenKind => entry.1.toList.isPrefixOf text) among
  obtain ⟨after, rfl⟩ := List.isPrefixOf_iff_prefix.mp front
  have listed := List.mem_of_find?_eq_some among
  cases equal
  rw [← String.length_toList]
  refine ⟨by simp, ?_⟩
  rw [List.take_left]
  exact punctuation_narrow entry listed

theorem bytePunctuation?_eq (here : RestAt bytes pos text) (more : text ≠ []) :
    bytePunctuation? bytes pos = some ((lexPunctuation text).inBytes text) := by
  obtain ⟨c, rest, rfl⟩ := List.exists_cons_of_ne_nil more
  unfold bytePunctuation? lexPunctuation
  rw [here.ahead_eq, punctuation?_shown, here.cut_rest]
  cases found : punctuation? (c :: rest) with
  | some entry =>
      have narrow : NarrowFor (c :: rest) entry.2 := .punctuation found
      rw [Lexeme.inBytes]
      dsimp only
      rw [narrow.width_eq]
  | none =>
      have size := c.utf8Size_pos
      have wide : max c.utf8Size 1 = width (c :: rest) 1 := by
        rw [width_cons, width_zero]
        omega
      simp only [List.head?_cons, Option.getD_some, Option.bind_eq_bind, Option.bind_some, wide]
      rfl

/-- The token at the front of a text is found by what its bytes show. -/
theorem byteToken?_eq (here : RestAt bytes pos text) (more : text ≠ []) :
    byteToken? bytes pos = some ((lexToken text).inBytes text) := by
  obtain ⟨c, rest, rfl⟩ := List.exists_cons_of_ne_nil more
  unfold byteToken? lexToken
  rw [here.ahead_eq]
  by_cases wide : IsWide c
  · obtain ⟨d, others, first, _, same, _⟩ := shown_cons_of_wide wide rest
    have apart : ∀ d, IsWide d → d ≠ '$' := fun d wide same => absurd (same ▸ wide) (by decide)
    have starts : ∀ d, IsWide d → isNameStart d = true := fun d wide => by
      simp [isNameStart, show 128 ≤ d.toNat from wide]
    rw [same]
    dsimp only
    rw [if_neg (mt And.left (apart d first)), if_neg (mt And.left (apart c wide)),
      starts d first, starts c wide]
    exact byteName?_eq here
  · rw [shown_cons_of_narrow wide]
    dsimp only
    rw [startsName_shown, any_head?_shown rest isDigit_narrow.byteWise]
    split
    · rename_i dollar
      obtain ⟨rfl, -⟩ := dollar
      exact byteVariable?_eq here
    split
    · exact byteName?_eq here
    split
    · exact byteNumber?_eq here
    split
    · rename_i quote
      subst quote
      exact byteSingleQuoted?_eq here
    split
    · rename_i quote
      subst quote
      exact byteDoubleQuoted?_eq here
    split
    · rename_i quote
      subst quote
      exact byteShellCommand?_eq here
    have punctuation := bytePunctuation?_eq here more
    by_cases less : c = '<'
    · subst less
      rw [if_pos rfl, here.cut_rest]
      simp only [Option.bind_eq_bind, Option.bind_some]
      split
      · rename_i front
        have marked : NarrowFor ('<' :: rest) 3 :=
          .of_take ['<', '<', '<'] (by decide) front
        rw [byteHeredoc?_eq here marked]
        cases lexHeredoc? ('<' :: rest) with
        | none => exact punctuation
        | some lexeme => rfl
      · exact punctuation
    · have other : (c :: rest).take 3 ≠ ['<', '<', '<'] := fun front =>
        less (List.cons.inj front).1
      rw [if_neg less, if_neg other]
      split
      · rename_i opening
        subst opening
        rw [byteCast?_eq here (NarrowFor.zero.cons wide)]
        cases lexCast? ('(' :: rest) with
        | none => exact punctuation
        | some lexeme => rfl
      · exact punctuation

end StaticReflection
