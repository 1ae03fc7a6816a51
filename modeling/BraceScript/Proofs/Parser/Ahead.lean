import BraceScript.Parser.Cursor

/-! # Tokens ahead of a cursor

A cursor is a place in an endless row of tokens: `token n` is the one `n` places after the current one, and
`ahead n` is the cursor on it. A cursor shows a list of tokens when these are the next ones, the current one
first. -/

namespace BraceScript

namespace Cursor

/-- The cursor `n` tokens further on. -/
def ahead (cursor : Cursor) : Nat → Cursor
  | 0 => cursor
  | n + 1 => ahead cursor.advance n

/-- The token `n` places after the current one. -/
def token (cursor : Cursor) (n : Nat) : Token := (cursor.ahead n).current

/-- Whether the next tokens are the given ones, of which the current one is the first. -/
def Shows : Cursor → List Token → Prop
  | _, [] => True
  | cursor, token :: tokens => cursor.current = token ∧ Shows cursor.advance tokens

variable {c : Cursor}

@[simp] theorem ahead_zero : c.ahead 0 = c := rfl

@[simp] theorem advance_ahead (n : Nat) : c.advance.ahead n = c.ahead (n + 1) := rfl

@[simp] theorem ahead_ahead (m n : Nat) : (c.ahead m).ahead n = c.ahead (m + n) := by
  induction m generalizing c with
  | zero => rw [Nat.zero_add, ahead_zero]
  | succ m ih => rw [← advance_ahead, ih, advance_ahead, Nat.add_right_comm]

@[simp] theorem ahead_advance (n : Nat) : (c.ahead n).advance = c.ahead (n + 1) := ahead_ahead n 1

@[simp] theorem current_ahead (n : Nat) : (c.ahead n).current = c.token n := rfl

@[simp] theorem token_ahead (m n : Nat) : (c.ahead m).token n = c.token (m + n) := by
  rw [token, ahead_ahead, current_ahead]

@[simp] theorem token_advance (n : Nat) : c.advance.token n = c.token (n + 1) := rfl

@[simp] theorem upcoming_ahead (n : Nat) : (c.ahead n).upcoming = c.token (n + 1) := token_ahead n 1

@[simp] theorem current_advance : c.advance.current = c.upcoming := rfl

@[simp] theorem depth_ahead (n : Nat) : (c.ahead n).depth = c.depth := by
  induction n generalizing c with
  | zero => rfl
  | succ n ih => rw [← advance_ahead, ih, advance]

@[simp] theorem diagnostics_ahead (n : Nat) : (c.ahead n).diagnostics = c.diagnostics := by
  induction n generalizing c with
  | zero => rfl
  | succ n ih => rw [← advance_ahead, ih, advance]

/-! ### Depths and diagnostics do not touch the tokens -/

@[simp] theorem depth_withDepth (d : Nat) : (c.withDepth d).depth = d := rfl

@[simp] theorem diagnostics_withDepth (d : Nat) : (c.withDepth d).diagnostics = c.diagnostics := rfl

@[simp] theorem withDepth_withDepth (d e : Nat) : (c.withDepth d).withDepth e = c.withDepth e := rfl

@[simp] theorem withDepth_depth : c.withDepth c.depth = c := rfl

@[simp] theorem ahead_withDepth (d n : Nat) : (c.withDepth d).ahead n = (c.ahead n).withDepth d := by
  induction n generalizing c with
  | zero => rfl
  | succ n ih => exact ih (c := c.advance)

@[simp] theorem withDepth_ahead_depth (n : Nat) : (c.ahead n).withDepth c.depth = c.ahead n := by
  rw [← depth_ahead (c := c) n, withDepth_depth]

@[simp] theorem advance_withDepth (d : Nat) : (c.withDepth d).advance = c.advance.withDepth d := rfl

@[simp] theorem current_withDepth (d : Nat) : (c.withDepth d).current = c.current := rfl

@[simp] theorem upcoming_withDepth (d : Nat) : (c.withDepth d).upcoming = c.upcoming := rfl

@[simp] theorem token_withDepth (d n : Nat) : (c.withDepth d).token n = c.token n := by
  rw [token, ahead_withDepth]
  rfl

/-! ### What a cursor shows -/

@[simp] theorem shows_nil : c.Shows [] := trivial

@[simp] theorem shows_cons {t : Token} {ts : List Token} :
    c.Shows (t :: ts) ↔ c.current = t ∧ c.advance.Shows ts := Iff.rfl

@[simp] theorem shows_append {ts us : List Token} :
    c.Shows (ts ++ us) ↔ c.Shows ts ∧ (c.ahead ts.length).Shows us := by
  induction ts generalizing c with
  | nil => simp
  | cons t ts ih => simp [ih, and_assoc]

@[simp] theorem shows_withDepth {d : Nat} {ts : List Token} : (c.withDepth d).Shows ts ↔ c.Shows ts := by
  induction ts generalizing c with
  | nil => simp
  | cons t ts ih => exact and_congr_right fun _ => ih (c := c.advance)

theorem shows_iff {ts : List Token} : c.Shows ts ↔ ∀ n, (h : n < ts.length) → c.token n = ts[n] := by
  induction ts generalizing c with
  | nil => simp
  | cons t ts ih =>
    rw [shows_cons, ih]
    constructor
    · rintro ⟨h0, h⟩ (_ | n) hn
      · exact h0
      · exact h n (Nat.lt_of_succ_lt_succ hn)
    · intro h
      exact ⟨h 0 (Nat.succ_pos _), fun n hn => h (n + 1) (Nat.succ_lt_succ hn)⟩

/-- The last of the tokens that a cursor shows. -/
theorem Shows.token_length {t : Token} {ts : List Token} (h : c.Shows (t :: ts)) :
    c.token ts.length = ts.getLastD t := by
  induction ts generalizing c t with
  | nil => exact h.1
  | cons u ts ih => exact (ih h.2).trans (List.getLastD_cons ..).symm

end Cursor

/-! ### The start of a stream -/

/-- The token `n` places after the start of a stream. -/
def TokenStream.token (stream : TokenStream) (n : Nat) : Token :=
  stream.tokens[n]?.getD (.endOfInput stream.ending)

theorem TokenStream.token_tail (stream : TokenStream) (n : Nat) : stream.tail.token n = stream.token (n + 1) := by
  simp [token, tail]

theorem TokenStream.token_zero (stream : TokenStream) : stream.token 0 = stream.head := by
  simp [token, head, List.head?_eq_getElem?]

namespace Cursor

theorem token_add_two (c : Cursor) (n : Nat) : c.token (n + 2) = c.stream.token n := by
  induction n generalizing c with
  | zero => exact (TokenStream.token_zero _).symm
  | succ n ih => exact (ih c.advance).trans (TokenStream.token_tail _ _)

@[simp] theorem token_start (stream : TokenStream) (n : Nat) : (start stream).token n = stream.token n := by
  match n with
  | 0 => exact (TokenStream.token_zero _).symm
  | 1 => exact (TokenStream.token_zero _).symm.trans (TokenStream.token_tail _ _)
  | n + 2 => rw [token_add_two, start, TokenStream.token_tail, TokenStream.token_tail]

theorem shows_start (ts : List Token) (ending : Position) : (start ⟨ts, ending⟩).Shows ts := by
  refine shows_iff.mpr fun n hn => ?_
  rw [token_start, TokenStream.token, List.getElem?_eq_getElem hn, Option.getD_some]

end Cursor

end BraceScript
