import BraceScript.Proofs.Parser.Settled

/-! # The ceiling of the nesting

The limit only matters where it is hit. From the least limit on under which the nesting is not reported to be too
deep, all limits give the same program and the same diagnostics (`parse_threshold`), and this limit is no larger than
the number of tokens and one. -/

namespace BraceScript

/-- Whether the nesting in a stream is reported to be too deep. -/
def TooDeep (stream : TokenStream) (limit : Nat) : Prop :=
  ∃ x ∈ (parse stream limit).2, ∃ l, x.fault = .nestingTooDeep l

section Ceiling
variable {stream : TokenStream} {limit limit' : Nat}

theorem parse_eq_of_not_tooDeep (hlimit : limit ≤ limit') (h : ¬ TooDeep stream limit) :
    parse stream limit = parse stream limit' := by
  rcases parse_raised stream hlimit with heq | ⟨ds, position, hds, -⟩
  · exact heq
  · have hmem : (⟨.nestingTooDeep limit, position⟩ : Diagnostic) ∈ (parse stream limit).2.toList :=
      hds.subset (by simp)
    exact absurd ⟨_, Array.mem_toList_iff.mp hmem, limit, rfl⟩ h

theorem TooDeep.of_le (hlimit : limit ≤ limit') (h : TooDeep stream limit') : TooDeep stream limit := by
  refine Classical.byContradiction fun hnot => hnot ?_
  obtain ⟨x, hx, hfault⟩ := h
  exact ⟨x, parse_eq_of_not_tooDeep hlimit hnot ▸ hx, hfault⟩

/-- The nesting takes no more levels than there are tokens. -/
theorem Stops.not_tooDeep {stop : Nat} (hstop : Stops stream.token stop) (hlimit : stop < limit) :
    ¬ TooDeep stream limit := by
  rintro ⟨x, hx, l, hfault⟩
  obtain ⟨stmts, ds, hds, hparse⟩ := parse_settled hstop limit
  rw [(hparse stream fun _ => rfl).2] at hx
  exact Nat.not_le.mpr hlimit (hds x hx l hfault)

/-- Below some limit the nesting is too deep, and from there on it is not. -/
theorem exists_threshold (h : ¬ TooDeep stream limit) :
    ∃ threshold ≤ limit, ∀ limit, TooDeep stream limit ↔ limit < threshold := by
  induction limit with
  | zero =>
    have hnever (limit : Nat) : ¬ TooDeep stream limit := fun hl => h (hl.of_le (Nat.zero_le limit))
    exact ⟨0, Nat.le_refl 0, fun limit => iff_of_false (hnever limit) (Nat.not_lt_zero limit)⟩
  | succ n ih =>
    by_cases hn : TooDeep stream n
    · refine ⟨n + 1, Nat.le_refl _, fun limit => ⟨fun hl => ?_, fun hl => hn.of_le (Nat.le_of_lt_succ hl)⟩⟩
      exact Nat.lt_of_not_le fun hle => h (hl.of_le hle)
    · obtain ⟨threshold, hle, hthreshold⟩ := ih hn
      exact ⟨threshold, Nat.le_succ_of_le hle, hthreshold⟩

end Ceiling

/-- The limit of the nesting has no influence unless it is hit, and it is not hit if it is larger than the number of
tokens. So there is one limit below which the nesting is reported to be too deep, and from which on everything is the
same. -/
theorem parse_threshold (ts : List Token) (ending : Position) (hts : ∀ t ∈ ts.dropLast, t.kind ≠ .endOfInput) :
    (∀ limit limit', limit ≤ limit' → ¬ TooDeep ⟨ts, ending⟩ limit →
        parse ⟨ts, ending⟩ limit = parse ⟨ts, ending⟩ limit') ∧
      (∀ limit, ts.length < limit → ¬ TooDeep ⟨ts, ending⟩ limit) ∧
      ∃ threshold ≤ ts.length + 1, ∀ limit, (TooDeep ⟨ts, ending⟩ limit ↔ limit < threshold) ∧
        (threshold ≤ limit → parse ⟨ts, ending⟩ limit = parse ⟨ts, ending⟩ threshold) := by
  obtain ⟨stop, hle, hstop⟩ := exists_stops ending hts
  have hroom : ∀ limit, ts.length < limit → ¬ TooDeep ⟨ts, ending⟩ limit := fun limit hlimit =>
    hstop.not_tooDeep (Nat.lt_of_le_of_lt hle hlimit)
  refine ⟨fun _ _ => parse_eq_of_not_tooDeep, hroom, ?_⟩
  obtain ⟨threshold, hbound, hthreshold⟩ := exists_threshold (hroom _ (Nat.lt_succ_self _))
  refine ⟨threshold, hbound, fun limit => ⟨hthreshold limit, fun hlimit => ?_⟩⟩
  exact (parse_eq_of_not_tooDeep hlimit fun h => Nat.lt_irrefl _ ((hthreshold _).mp h)).symm

/-- In `(-x` the parenthesis takes a level, and so do the operator and its operand. What is wrong is that the
parenthesis is not closed, but this is only seen if there are three levels. -/
theorem parse_threshold_unclosed :
    let ts : List Token := [⟨.leftParen, "(", .null⟩, ⟨.minus, "-", .null⟩, ⟨.identifier, "x", .null⟩]
    (∀ t ∈ ts.dropLast, t.kind ≠ .endOfInput) ∧
      (parse ⟨ts, .null⟩ 2).2 = #[⟨.nestingTooDeep 2, .null⟩] ∧
      (parse ⟨ts, .null⟩ 3).2 = #[⟨.unexpectedToken .rightParen .endOfInput, .null⟩] ∧
      ∀ limit, (TooDeep ⟨ts, .null⟩ limit ↔ limit < 3) ∧
        (3 ≤ limit → parse ⟨ts, .null⟩ limit = parse ⟨ts, .null⟩ 3) := by
  intro ts
  have hts : ∀ t ∈ ts.dropLast, t.kind ≠ .endOfInput := by decide
  have htwo : (parse ⟨ts, .null⟩ 2).2 = #[⟨.nestingTooDeep 2, .null⟩] := by rfl
  have hthree : (parse ⟨ts, .null⟩ 3).2 = #[⟨.unexpectedToken .rightParen .endOfInput, .null⟩] := by rfl
  have hdeep : TooDeep ⟨ts, .null⟩ 2 := by simp [TooDeep, htwo]
  have hnot : ¬ TooDeep ⟨ts, .null⟩ 3 := by simp [TooDeep, hthree]
  obtain ⟨-, -, threshold, -, hthreshold⟩ := parse_threshold ts .null hts
  have hlt : 2 < threshold := (hthreshold 2).1.mp hdeep
  have hle : threshold ≤ 3 := Nat.le_of_not_lt fun h => hnot ((hthreshold 3).1.mpr h)
  obtain rfl : threshold = 3 := Nat.le_antisymm hle hlt
  exact ⟨hts, htwo, hthree, hthreshold⟩

end BraceScript
