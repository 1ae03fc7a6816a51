import BraceScript.Source.Line

/-! # Places and the lines they are in

A text is cut into lines that end with their only newline, so the newlines before a place tell the number of its line.
The place of a character is in the line around this character (`exists_lineAt`). -/

namespace BraceScript

/-! ### Cutting into lines -/

/-- Lines as a text is cut into them. Each ends with its only newline; the last one may have none and is not empty then. -/
inductive Lined : List (List Char) → Prop
  | nil : Lined []
  | last {body : List Char} : body ≠ [] → '\n' ∉ body → Lined [body]
  | cons {body : List Char} {lines : List (List Char)} : '\n' ∉ body → Lined lines →
    Lined ((body ++ ['\n']) :: lines)

theorem lined_splitLines (cs : List Char) : Lined (splitLines cs) := by
  induction cs with
  | nil => exact .nil
  | cons c cs ih =>
    unfold splitLines at ih ⊢
    unfold splitAfter
    by_cases hc : c = '\n'
    · subst hc
      exact @Lined.cons [] _ List.not_mem_nil ih
    rw [if_neg (by simpa using hc)]
    have hcons {body : List Char} (hbody : '\n' ∉ body) : '\n' ∉ c :: body := by
      simpa [Ne.symm hc] using hbody
    cases hlines : splitAfter (· = '\n') cs with
    | nil => exact .last (List.cons_ne_nil c []) (hcons List.not_mem_nil)
    | cons line lines =>
      rw [hlines] at ih
      cases ih with
      | last _ hbody => exact .last (List.cons_ne_nil c _) (hcons hbody)
      | cons hbody hrest => exact .cons (hcons hbody) hrest

section Lined
variable {lines before after : List (List Char)} {line : List Char}

/-- Before another line there is one that ends with a newline. -/
theorem Lined.exists_body (h : Lined (line :: lines)) (hne : lines ≠ []) :
    ∃ body, '\n' ∉ body ∧ line = body ++ ['\n'] ∧ Lined lines := by
  cases h with
  | last _ _ => exact absurd rfl hne
  | cons hbody hlines => exact ⟨_, hbody, rfl, hlines⟩

/-- Before a line there are as many newlines as lines, and the last character there is one. -/
theorem Lined.ahead (h : Lined (before ++ line :: after)) :
    before.flatten.count '\n' = before.length ∧ ∀ d ∈ before.flatten.getLast?, d = '\n' := by
  induction before with
  | nil => exact ⟨rfl, by simp⟩
  | cons first before ih =>
    obtain ⟨body, hbody, rfl, hrest⟩ := Lined.exists_body h (by simp)
    obtain ⟨hcount, hlast⟩ := ih hrest
    refine ⟨?_, fun d hd => ?_⟩
    · rw [List.flatten_cons, List.count_append, hcount, List.count_append, List.count_eq_zero.mpr hbody]
      simp [Nat.add_comm]
    · rw [List.flatten_cons, List.getLast?_append] at hd
      cases hbefore : before.flatten.getLast? with
      | some e =>
        rw [hbefore] at hd
        exact hlast d (hbefore.trans hd)
      | none =>
        rw [hbefore] at hd
        simpa [eq_comm] using hd

/-- A line has no newline but at its end, and only the last line may have none there. -/
theorem Lined.within (h : Lined (before ++ line :: after)) :
    ∃ body, '\n' ∉ body ∧ (line = body ∧ after = [] ∨ line = body ++ ['\n']) := by
  induction before with
  | nil =>
    cases h with
    | last _ hbody => exact ⟨_, hbody, .inl ⟨rfl, rfl⟩⟩
    | cons hbody _ => exact ⟨_, hbody, .inr rfl⟩
  | cons first before ih =>
    obtain ⟨-, -, -, hrest⟩ := Lined.exists_body h (by simp)
    exact ih hrest

/-- From a character of a line, the text goes on to the end of this line and from there with a newline. -/
theorem Lined.behind {start tail : List Char} {c : Char} (h : Lined (before ++ (start ++ c :: tail) :: after)) (hc : c ≠ '\n') :
    '\n' ∉ start ∧ ∃ rest behind, tail ++ after.flatten = rest ++ behind ∧ '\n' ∉ rest ∧
      (∀ d ∈ behind.head?, d = '\n') ∧ tail = rest ++ behind.take 1 := by
  obtain ⟨body, hbody, ⟨rfl, rfl⟩ | hends⟩ := h.within
  · simp only [List.mem_append, List.mem_cons, not_or] at hbody
    exact ⟨hbody.1, tail, [], rfl, hbody.2.2, by simp, by simp⟩
  · rcases List.eq_nil_or_concat tail with rfl | ⟨tail, d, rfl⟩
    · obtain ⟨-, hd⟩ := List.append_inj' hends rfl
      exact absurd (List.cons.inj hd).1 hc
    · obtain ⟨rfl, hd⟩ := List.append_inj' (show start ++ c :: tail ++ [d] = body ++ ['\n'] by simpa using hends) rfl
      cases hd
      simp only [List.mem_append, List.mem_cons, not_or] at hbody
      exact ⟨hbody.1, tail, '\n' :: after.flatten, by simp, hbody.2.2, by simp, by simp⟩

end Lined

/-! ### Places in lines -/

/-- A place before the end of the text is in one of its lines. -/
theorem exists_placeInLines (number : Nat) {lines : List (List Char)} {p : Nat} (hp : p < byteLength lines.flatten) :
    ∃ before line after q, lines = before ++ line :: after ∧ byteLength before.flatten + q = p ∧ q < byteLength line ∧
      placeInLines number lines p = ⟨number + before.length, line, q⟩ := by
  induction lines generalizing number p with
  | nil => simp at hp
  | cons line lines ih =>
    rw [List.flatten_cons, byteLength_append] at hp
    by_cases hline : p < byteLength line
    · refine ⟨[], line, lines, p, rfl, Nat.zero_add p, hline, ?_⟩
      cases lines with
      | nil => rfl
      | cons next lines => exact if_pos hline
    · cases lines with
      | nil => exact absurd hp (by simpa using hline)
      | cons next lines =>
        obtain ⟨before, line', after, q, hlines, hq, hlt, hplace⟩ := @ih (number + 1) (p - byteLength line) (by omega)
        refine ⟨line :: before, line', after, q, by rw [hlines]; rfl, ?_, hlt, ?_⟩
        · rw [List.flatten_cons, byteLength_append]
          omega
        · rw [placeInLines, if_neg hline, hplace, List.length_cons, Nat.add_right_comm, Nat.add_assoc]

theorem charCount?_append (cs ds : List Char) : charCount? (cs ++ ds) (byteLength cs) = some cs.length := by
  induction cs with
  | nil => cases ds <;> rfl
  | cons c cs ih =>
    have hpos := c.utf8Size_pos
    obtain ⟨n, hn⟩ : ∃ n, c.utf8Size + byteLength cs = n + 1 := ⟨c.utf8Size + byteLength cs - 1, by omega⟩
    rw [List.cons_append, byteLength_cons, hn, charCount?, if_pos (by omega), ← hn, Nat.add_sub_cancel_left, ih]
    rfl

/-- Where the bytes of one part are no more than those of another, the parts overlap as far as they reach. -/
theorem exists_append_of_byteLength_le {cs ds front rest : List Char} (h : cs ++ ds = front ++ rest)
    (hle : byteLength cs ≤ byteLength front) : ∃ start, front = cs ++ start ∧ ds = start ++ rest := by
  rcases List.append_eq_append_iff.mp h with ⟨start, hfront, hds⟩ | ⟨start, rfl, hrest⟩
  · exact ⟨start, hfront, hds⟩
  · -- What the first part has more takes no bytes.
    cases start with
    | nil => exact ⟨[], by simp, by simpa using hrest.symm⟩
    | cons d start =>
      have hpos := d.utf8Size_pos
      rw [byteLength_append, byteLength_cons] at hle
      omega

/-- The place of a character that is not a newline is in the line around it, which is counted by the newlines before. -/
theorem exists_lineAt {source : String} {front rest : List Char} {c : Char} (h : source.toList = front ++ c :: rest)
    (hc : c ≠ '\n') : ∃ ahead start tail behind, front = ahead ++ start ∧ rest = tail ++ behind ∧
      (∀ d ∈ ahead.getLast?, d = '\n') ∧ (∀ d ∈ behind.head?, d = '\n') ∧ '\n' ∉ start ∧ '\n' ∉ tail ∧
      lineAt source (byteLength front) =
        some ⟨1 + front.count '\n', start ++ c :: (tail ++ behind.take 1), byteLength start⟩ := by
  have hflatten : (splitLines source.toList).flatten = front ++ c :: rest := (flatten_splitAfter _ _).trans h
  have hpos := c.utf8Size_pos
  have hlength : byteLength source.toList = byteLength front + (c.utf8Size + byteLength rest) := by
    rw [h, byteLength_append, byteLength_cons]
  obtain ⟨before, line, after, q, hlines, hq, hlt, hplace⟩ := exists_placeInLines 1
    (show byteLength front < byteLength (splitLines source.toList).flatten by rw [hflatten, ← h]; omega)
  have hlined := lined_splitLines source.toList
  rw [hlines] at hflatten hlined
  rw [List.flatten_append, List.flatten_cons] at hflatten
  obtain ⟨start, rfl, hline⟩ := exists_append_of_byteLength_le hflatten (by omega)
  rw [byteLength_append] at hq
  obtain rfl : q = byteLength start := by omega
  obtain ⟨tail, rfl, hrest⟩ := exists_append_of_byteLength_le hline.symm (Nat.le_of_lt hlt)
  obtain ⟨hcount, hlast⟩ := hlined.ahead
  -- The line goes on with the character, since the place is before its end.
  cases tail with
  | nil => simp at hlt
  | cons d tail =>
    obtain ⟨rfl, rfl⟩ := List.cons.inj hrest
    obtain ⟨hstart, tail, behind, hsplit, htail, hbehind, rfl⟩ := hlined.behind hc
    refine ⟨before.flatten, start, tail, behind, rfl, hsplit, hlast, hbehind, hstart, htail, ?_⟩
    have hat : lineAt source (byteLength (before.flatten ++ start)) =
        some (placeInLines 1 (splitLines source.toList) (byteLength (before.flatten ++ start))) :=
      if_neg (by omega)
    rw [hat, hplace, List.count_append, hcount, List.count_eq_zero.mpr hstart, Nat.add_zero]

end BraceScript
