namespace NcProgram.Text

/-- The number of bytes that encode the characters. -/
def utf8Length (cs : List Char) : Nat :=
  cs.foldr (fun c n => c.utf8Size + n) 0

/-- What follows the first `n` bytes; nothing when there are fewer. Fails when the cut falls inside
a character. -/
def dropBytes? : Nat → List Char → Option (List Char)
  | 0, cs => some cs
  | _ + 1, [] => some []
  | n + 1, c :: cs => if c.utf8Size ≤ n + 1 then dropBytes? (n + 1 - c.utf8Size) cs else none

/-- The first `n` bytes; all when there are fewer. Fails when the cut falls inside a character. -/
def takeBytes? : Nat → List Char → Option (List Char)
  | 0, _ => some []
  | _ + 1, [] => some []
  | n + 1, c :: cs =>
    if c.utf8Size ≤ n + 1 then (takeBytes? (n + 1 - c.utf8Size) cs).map (c :: ·) else none

/-- The bytes from `start` up to `stop`, as far as the text reaches. An empty range has no cut in
it, wherever it lies. -/
def sliceBytes? (start stop : Nat) (cs : List Char) : Option (List Char) :=
  if stop ≤ start then some [] else (dropBytes? start cs).bind (takeBytes? (stop - start))

/-- The characters that lie wholly in the first `n` bytes, and the remaining ones. -/
def splitAtByte : Nat → List Char → List Char × List Char
  | _, [] => ([], [])
  | n, c :: cs =>
    if c.utf8Size ≤ n then
      let (before, after) := splitAtByte (n - c.utf8Size) cs
      (c :: before, after)
    else ([], c :: cs)

@[simp] theorem utf8Length_nil : utf8Length [] = 0 := rfl

@[simp] theorem utf8Length_cons (c : Char) (cs : List Char) :
    utf8Length (c :: cs) = c.utf8Size + utf8Length cs := rfl

@[simp] theorem utf8Length_append (cs ds : List Char) :
    utf8Length (cs ++ ds) = utf8Length cs + utf8Length ds := by
  induction cs with
  | nil => simp
  | cons c cs ih => simp [ih, Nat.add_assoc]

theorem dropBytes?_utf8Length_append (cs ds : List Char) :
    dropBytes? (utf8Length cs) (cs ++ ds) = some ds := by
  induction cs with
  | nil => cases ds <;> rfl
  | cons c cs ih =>
      have hc : 0 < c.utf8Size := c.utf8Size_pos
      obtain ⟨n, hn⟩ : ∃ n, c.utf8Size + utf8Length cs = n + 1 :=
        ⟨c.utf8Size + utf8Length cs - 1, by omega⟩
      rw [utf8Length_cons, hn, List.cons_append, dropBytes?, if_pos (by omega), ← hn,
        Nat.add_sub_cancel_left, ih]

theorem takeBytes?_utf8Length_append (cs ds : List Char) :
    takeBytes? (utf8Length cs) (cs ++ ds) = some cs := by
  induction cs with
  | nil => cases ds <;> rfl
  | cons c cs ih =>
      have hc : 0 < c.utf8Size := c.utf8Size_pos
      obtain ⟨n, hn⟩ : ∃ n, c.utf8Size + utf8Length cs = n + 1 :=
        ⟨c.utf8Size + utf8Length cs - 1, by omega⟩
      rw [utf8Length_cons, hn, List.cons_append, takeBytes?, if_pos (by omega), ← hn,
        Nat.add_sub_cancel_left, ih, Option.map_some]

theorem splitAtByte_append (n : Nat) (cs : List Char) :
    (splitAtByte n cs).1 ++ (splitAtByte n cs).2 = cs := by
  induction cs generalizing n with
  | nil => rfl
  | cons c cs ih =>
      rw [splitAtByte]
      split
      · simp [ih]
      · rfl

theorem splitAtByte_utf8Length_append (cs ds : List Char) :
    splitAtByte (utf8Length cs) (cs ++ ds) = (cs, ds) := by
  induction cs with
  | nil =>
      cases ds with
      | nil => rfl
      | cons d ds =>
          have hd := d.utf8Size_pos
          rw [List.nil_append, utf8Length_nil, splitAtByte, if_neg (by omega)]
  | cons c cs ih =>
      rw [List.cons_append, utf8Length_cons, splitAtByte, if_pos (by omega), Nat.add_sub_cancel_left,
        ih]

theorem sliceBytes?_utf8Length_append (front cs back : List Char) :
    sliceBytes? (utf8Length front) (utf8Length (front ++ cs)) (front ++ cs ++ back) = some cs := by
  rw [sliceBytes?, utf8Length_append]
  split
  next hempty =>
    cases cs with
    | nil => rfl
    | cons c cs =>
        have hc := c.utf8Size_pos
        rw [utf8Length_cons] at hempty
        omega
  · rw [List.append_assoc, dropBytes?_utf8Length_append, Option.bind_some,
      Nat.add_sub_cancel_left, takeBytes?_utf8Length_append]

end NcProgram.Text
