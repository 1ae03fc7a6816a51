import BraceScript.Proofs.Source.Line

/-! # Lines by byte offsets

A newline is one byte of a text's UTF-8 form, and no other character has this byte in it. So the newlines among the
first bytes of a text tell the line that the next byte is in, also where this byte is inside a character. Every offset
up to the end of the text has its line, and the end is in the last one (`lineAt_exact`). -/

namespace BraceScript

/-! ### The bytes of a text -/

/-- The UTF-8 form of a text. -/
def utf8 (cs : List Char) : List UInt8 := cs.flatMap String.utf8EncodeChar

theorem utf8_append (cs ds : List Char) : utf8 (cs ++ ds) = utf8 cs ++ utf8 ds := List.flatMap_append

theorem length_utf8 (cs : List Char) : (utf8 cs).length = byteLength cs := by
  induction cs with
  | nil => rfl
  | cons c cs ih =>
    rw [utf8, List.flatMap_cons, List.length_append, String.length_utf8EncodeChar, byteLength_cons, ← ih, utf8]

theorem toList_toUTF8 (s : String) : s.toUTF8.data.toList = utf8 s.toList := by
  rw [String.toUTF8_eq_toByteArray, ← String.utf8Encode_toList, List.utf8Encode, List.toList_data_toByteArray, utf8]

theorem byteLength_toList (s : String) : byteLength s.toList = s.utf8ByteSize := by
  rw [← length_utf8, ← toList_toUTF8]
  rfl

/-- Only a newline has the byte of a newline in it. -/
theorem mem_utf8EncodeChar {c : Char} (h : 10 ∈ String.utf8EncodeChar c) : c = '\n' := by
  have hbyte (n : Nat) : (10 : UInt8) = UInt8.ofNat n ↔ n % 256 = 10 := by
    rw [← UInt8.toNat_inj, UInt8.toNat_ofNat', eq_comm]
    rfl
  have hval : c.val.toNat = 10 := by
    unfold String.utf8EncodeChar at h
    dsimp only at h
    -- By the number of bytes: where there are several, they are all from 128 on.
    repeat' split at h
    all_goals
      simp only [List.mem_cons, List.not_mem_nil, or_false, hbyte] at h
      omega
  exact Char.ext (UInt32.toNat_inj.mp hval)

theorem count_utf8 (cs : List Char) : (utf8 cs).count 10 = cs.count '\n' := by
  induction cs with
  | nil => rfl
  | cons c cs ih =>
    rw [utf8, List.flatMap_cons, List.count_append, ← utf8, ih]
    by_cases hc : c = '\n'
    · subst hc
      rw [List.count_cons_self, Nat.add_comm]
      rfl
    · rw [List.count_cons_of_ne hc, List.count_eq_zero.mpr fun h => hc (mem_utf8EncodeChar h), Nat.zero_add]

/-- No first bytes of a text without newlines have one. -/
theorem count_take_utf8 {body : List Char} (h : '\n' ∉ body) (n : Nat) : ((utf8 body).take n).count 10 = 0 := by
  have hnone : 10 ∉ utf8 body := by
    rw [← List.count_eq_zero, count_utf8, List.count_eq_zero]
    exact h
  exact List.count_eq_zero.mpr fun hmem => hnone (List.mem_of_mem_take hmem)

/-! ### The line of an offset -/

/-- Before a byte of a line there are as many newlines as lines before it. -/
theorem Lined.count_take {before after : List (List Char)} {line : List Char} {q : Nat}
    (h : Lined (before ++ line :: after)) (hq : q < byteLength line) :
    ((utf8 (before ++ line :: after).flatten).take (byteLength before.flatten + q)).count 10 = before.length := by
  have htake : (utf8 (before ++ line :: after).flatten).take (byteLength before.flatten + q) =
      utf8 before.flatten ++ (utf8 line).take q := by
    rw [List.flatten_append, List.flatten_cons, utf8_append, utf8_append, ← length_utf8, List.take_length_add_append,
      List.take_append_of_le_length (by rw [length_utf8]; exact Nat.le_of_lt hq)]
  -- What is before the place in its line ends before the newline there.
  have hline : ((utf8 line).take q).count 10 = 0 := by
    obtain ⟨body, hbody, ⟨rfl, -⟩ | rfl⟩ := h.within
    · exact count_take_utf8 hbody q
    · have hle : q ≤ (utf8 body).length := by
        rw [byteLength_append] at hq
        rw [length_utf8]
        exact Nat.le_of_lt_succ hq
      rw [utf8_append, List.take_append_of_le_length hle, count_take_utf8 hbody q]
  rw [htake, List.count_append, count_utf8, h.ahead.1, hline, Nat.add_zero]

/-- The end of the text is in its last line. -/
theorem exists_placeInLines_end (number : Nat) {lines : List (List Char)} (h : lines ≠ []) :
    ∃ before line, lines = before ++ [line] ∧
      placeInLines number lines (byteLength lines.flatten) = ⟨number + before.length, line, byteLength line⟩ := by
  induction lines generalizing number with
  | nil => exact absurd rfl h
  | cons line lines ih =>
    cases lines with
    | nil => exact ⟨[], line, rfl, by simp [placeInLines]⟩
    | cons next lines =>
      obtain ⟨before, last, hlines, hplace⟩ := ih (number + 1) (List.cons_ne_nil next lines)
      refine ⟨line :: before, last, congrArg (line :: ·) hlines, ?_⟩
      rw [List.flatten_cons, byteLength_append, placeInLines, if_neg (Nat.not_lt.mpr (Nat.le_add_right _ _)),
        Nat.add_sub_cancel_left, hplace, List.length_cons, Nat.add_right_comm, Nat.add_assoc]

/-- What is found for the byte offset `p` of a text that is not empty: a line of it, which is behind the lines `before` and
before the lines `after`, and how far into this line the offset is. None of the lines up to this one begins behind the
offset, so there is a distance from each of their starts. -/
structure LinePlace.Located (place : LinePlace) (content : String) (p : Nat) (before after : List (List Char)) : Prop where
  lines : Lined (before ++ place.line :: after)
  text : (before ++ place.line :: after).flatten = content.toList
  number : place.number = before.length + 1
  start (k : Nat) : k ≤ before.length → byteLength (before.take k).flatten ≤ p
  offset : byteLength before.flatten + place.offset = p
  inside : p < content.utf8ByteSize →
    place.offset < byteLength place.line ∧ place.number = 1 + (content.toUTF8.data.toList.take p).count 10
  ending : p = content.utf8ByteSize → after = [] ∧ place.offset = byteLength place.line

theorem LinePlace.located_of_splitLines {content : String} {before after : List (List Char)} {line : List Char} {p q : Nat}
    (hlines : splitLines content.toList = before ++ line :: after) (hp : byteLength before.flatten + q = p)
    (hq : q < byteLength line ∨ after = [] ∧ q = byteLength line) :
    Located ⟨1 + before.length, line, q⟩ content p before after := by
  have hlined : Lined (before ++ line :: after) := hlines ▸ lined_splitLines content.toList
  have htext : (before ++ line :: after).flatten = content.toList := hlines ▸ flatten_splitAfter _ content.toList
  have hsize : content.utf8ByteSize = byteLength before.flatten + (byteLength line + byteLength after.flatten) := by
    rw [← byteLength_toList, ← htext, List.flatten_append, List.flatten_cons, byteLength_append, byteLength_append]
  refine ⟨hlined, htext, Nat.add_comm 1 _, fun k _ => ?_, hp, fun hlt => ?_, fun heq => ?_⟩
  · have hbefore : before.flatten = (before.take k).flatten ++ (before.drop k).flatten := by
      rw [← List.flatten_append, List.take_append_drop]
    rw [hbefore, byteLength_append] at hp
    omega
  · have hq : q < byteLength line := by
      rcases hq with hq | ⟨rfl, rfl⟩
      · exact hq
      · rw [List.flatten_nil, byteLength_nil] at hsize
        omega
    refine ⟨hq, ?_⟩
    rw [toList_toUTF8, ← htext, ← hp, hlined.count_take hq]
  · rcases hq with hq | hq
    · omega
    · exact hq

/-- Each offset up to the end of a text that is not empty is in one of its lines. -/
theorem exists_located {content : String} {p : Nat} (hne : content ≠ "") (hp : p ≤ content.utf8ByteSize) :
    ∃ before after, (placeInLines 1 (splitLines content.toList) p).Located content p before after := by
  have hflatten : (splitLines content.toList).flatten = content.toList := flatten_splitAfter _ _
  have hlines : splitLines content.toList ≠ [] := by
    intro hnil
    rw [hnil] at hflatten
    exact hne (String.toList_eq_nil_iff.mp hflatten.symm)
  rw [← byteLength_toList, ← hflatten] at hp
  rcases Nat.eq_or_lt_of_le hp with rfl | hp
  · obtain ⟨before, line, hlines, hplace⟩ := exists_placeInLines_end 1 hlines
    have hend : byteLength before.flatten + byteLength line = byteLength (splitLines content.toList).flatten := by
      rw [hlines, List.flatten_append, byteLength_append, List.flatten_singleton]
    refine ⟨before, [], ?_⟩
    rw [hplace]
    exact LinePlace.located_of_splitLines hlines hend (.inr ⟨rfl, rfl⟩)
  · obtain ⟨before, line, after, q, hlines, hoffset, hq, hplace⟩ := exists_placeInLines 1 hp
    refine ⟨before, after, ?_⟩
    rw [hplace]
    exact LinePlace.located_of_splitLines hlines hoffset (.inl hq)

/-- An offset has no line just if it is behind the end of the text. Of the empty text the one line is empty, and of any
other text the line of an offset is the one that the offset is in, the last one for the end of the text. -/
theorem lineAt_exact (content : String) (p : Nat) :
    (lineAt content p = none ↔ content.utf8ByteSize < p) ∧
      (p ≤ content.utf8ByteSize → ∃ place, lineAt content p = some place ∧
        (content = "" ∧ place = ⟨1, [], 0⟩ ∨ ∃ before after, place.Located content p before after)) := by
  have hnone : lineAt content p = none ↔ content.utf8ByteSize < p := by
    rw [lineAt, byteLength_toList]
    simp
  refine ⟨hnone, fun hp => ⟨placeInLines 1 (splitLines content.toList) p, ?_, ?_⟩⟩
  · rw [lineAt, byteLength_toList, if_neg (Nat.not_lt.mpr hp)]
  · by_cases hempty : content = ""
    · subst hempty
      obtain rfl : p = 0 := Nat.le_zero.mp hp
      exact .inl ⟨rfl, rfl⟩
    · exact .inr (exists_located hempty hp)

/-- The second byte of a character, the line break of an empty line, and the end behind the last line break. -/
theorem lineAt_exact_end :
    "é\n\nab\n".utf8ByteSize = 7 ∧ lineAt "é\n\nab\n" 8 = none ∧
      (∃ before after, LinePlace.Located ⟨1, ['é', '\n'], 1⟩ "é\n\nab\n" 1 before after) ∧
      (∃ before after, LinePlace.Located ⟨2, ['\n'], 0⟩ "é\n\nab\n" 3 before after) ∧
      ∃ before after, LinePlace.Located ⟨3, ['a', 'b', '\n'], 3⟩ "é\n\nab\n" 7 before after := by
  have hsize : "é\n\nab\n".utf8ByteSize = 7 := by decide
  have hfound {p : Nat} {place : LinePlace} (hp : p ≤ 7) (hplace : lineAt "é\n\nab\n" p = some place) :
      ∃ before after, place.Located "é\n\nab\n" p before after := by
    obtain ⟨found, hfound, hempty | hlocated⟩ := (lineAt_exact "é\n\nab\n" p).2 (hsize ▸ hp)
    · exact absurd hempty.1 (by decide)
    · cases hfound.symm.trans hplace
      exact hlocated
  exact ⟨hsize, (lineAt_exact "é\n\nab\n" 8).1.mpr (by decide), hfound (by decide) rfl, hfound (by decide) rfl,
    hfound (by decide) rfl⟩

end BraceScript
