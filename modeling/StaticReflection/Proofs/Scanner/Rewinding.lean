import StaticReflection.Proofs.Scanner.Tiling

namespace StaticReflection

/-! Reading ahead and going back. Problems are only added, so the number of them that there were
is enough to find the earlier ones again, and what is read again is reported once. -/

namespace TokenReader

/-- What a reader may go through after a state of it was saved: it reads tokens, and goes back
to states that were saved in between. -/
inductive Since : TokenReader → TokenReader → Prop
  | saved (reader : TokenReader) : Since reader reader
  | advance {saved reader : TokenReader} : Since saved reader → Since saved reader.advance
  | rewind {saved inner reader : TokenReader} :
      Since saved inner → Since inner reader → Since saved (reader.rewind inner)

variable {saved reader : TokenReader}

theorem rewind_of_grown (grown : saved.problems <+: reader.problems) :
    reader.rewind saved = saved := by
  obtain ⟨later, whole⟩ := grown
  rw [rewind, ← whole, List.take_left]

theorem Since.grown (since : saved.Since reader) : saved.problems <+: reader.problems := by
  induction since with
  | saved reader => exact List.prefix_rfl
  | advance _ ih => exact ih.trans (List.prefix_append _ _)
  | rewind _ _ outer inner => rwa [rewind_of_grown inner]

theorem Since.rewind_eq (since : saved.Since reader) : reader.rewind saved = saved :=
  rewind_of_grown since.grown

/-- Whatever was read ahead in between, the reader has come some tokens further. -/
theorem Since.exists_iterate (since : saved.Since reader) :
    ∃ count, reader = TokenReader.advance^[count] saved := by
  induction since with
  | saved reader => exact ⟨0, rfl⟩
  | advance _ ih =>
      obtain ⟨count, rfl⟩ := ih
      exact ⟨count + 1, (Function.iterate_succ_apply' _ _ _).symm⟩
  | rewind _ inner ih _ => rwa [inner.rewind_eq]

theorem since_iterate (saved : TokenReader) (count : Nat) :
    saved.Since (TokenReader.advance^[count] saved) := by
  induction count with
  | zero => exact .saved saved
  | succ count ih =>
      rw [Function.iterate_succ_apply']
      exact ih.advance

theorem Since.trans {later : TokenReader} (first : saved.Since reader)
    (second : reader.Since later) : saved.Since later := by
  induction second with
  | saved reader => exact first
  | advance _ ih => exact (ih first).advance
  | rewind _ inner ih _ => exact .rewind (ih first) inner

/-- Every problem is reported once, with the token that it was found at. -/
theorem problems_iterate (saved : TokenReader) (count : Nat) :
    (TokenReader.advance^[count] saved).problems =
      saved.problems ++ (List.range count).flatMap fun place => (saved.scan place).problems := by
  induction count with
  | zero => simp
  | succ count ih =>
      rw [Function.iterate_succ_apply', List.range_succ, List.flatMap_append, ← List.append_assoc,
        ← ih, List.flatMap_singleton, scan_eq]
      rfl

end TokenReader

/-! The end of a text. -/

/-- What marks the end. -/
def Token.endAt (pos : Nat) (problems : List ScanProblem) : Token :=
  { kind := .endOfFile, span := ⟨pos, pos⟩, problems }

namespace Scanner

theorem nextFrom_endOfFile (scanner : Scanner) (fuel : Nat) (problems : List ScanProblem)
    (ended : (scanner.nextFrom fuel problems).1.kind = .endOfFile) :
    (scanner.nextFrom fuel problems).1 = .endAt (scanner.nextFrom fuel problems).2.pos
      (scanner.nextFrom fuel problems).1.problems := by
  fun_induction nextFrom fuel scanner problems with
  | case1 scanner problems => rfl
  | case2 fuel scanner problems outside unfound => rfl
  | case3 fuel scanner problems outside length tag ih => exact ih ended
  | case4 fuel scanner problems outside before tag => cases ended
  | case5 fuel scanner problems inCode done => rfl
  | case6 fuel scanner problems inCode length blank ih => exact ih ended
  | case7 fuel scanner problems inCode length closed isDoc comment problem ih => exact ih ended
  | case8 fuel scanner problems inCode length tag => cases ended
  | case9 fuel scanner problems inCode front =>
      have fits := frontOf_fits scanner.rest
      rw [front] at fits
      obtain ⟨c, rest, more⟩ := List.exists_cons_of_ne_nil fits
      have proper := lexToken_proper c rest
      rw [← more] at proper
      exact absurd ended proper.inside

theorem next_endOfFile (scanner : Scanner) (ended : scanner.next.1.kind = .endOfFile) :
    scanner.next.1 = .endAt scanner.next.2.pos scanner.next.1.problems :=
  scanner.nextFrom_endOfFile _ _ ended

theorem next_of_rest_nil {scanner : Scanner} (finished : scanner.rest = []) :
    scanner.next = (.endAt scanner.pos [], scanner) := by
  obtain ⟨rest, pos, inCode, pendingDoc⟩ := scanner
  cases finished
  cases inCode <;> rfl

end Scanner

end StaticReflection
