import WebIdl.Text.Position

/-!
# Slices of a text

The stretch of a text between two offsets. Offsets count bytes, and a text can be cut only between
two characters, so there is no slice where an offset falls inside a character or past the end.

* `Text.splitBytes?_eq_some_iff` — a text is cut after as many bytes as its first part has.
* `Text.slice?_eq_some_iff` — a slice is what stands between two parts of the text which end and
  start at the offsets.
-/

namespace WebIdl.Text

/-- The parts of a text before and after `n` bytes. -/
def splitBytes? : Nat → List Char → Option (List Char × List Char)
  | 0, cs => some ([], cs)
  | _ + 1, [] => none
  | n + 1, c :: cs =>
    if c.utf8Size ≤ n + 1 then
      (splitBytes? (n + 1 - c.utf8Size) cs).map fun (s, t) => (c :: s, t)
    else none

/-- The stretch of a text that a span covers. -/
def slice? (text : String) (span : Span) : Option String :=
  if span.start ≤ span.stop then do
    let (_, rest) ← splitBytes? span.start text.toList
    let (inside, _) ← splitBytes? (span.stop - span.start) rest
    return String.ofList inside
  else none

variable {cs s t : List Char} {c : Char} {n : Nat} {text part : String} {span : Span}

theorem utf8ByteSize_ofList_cons :
    (String.ofList (c :: s)).utf8ByteSize = c.utf8Size + (String.ofList s).utf8ByteSize := by
  simp [String.ofList_cons]

theorem splitBytes?_eq_some_iff :
    splitBytes? n cs = some (s, t) ↔ cs = s ++ t ∧ (String.ofList s).utf8ByteSize = n := by
  constructor
  · intro h
    fun_induction splitBytes? n cs generalizing s with
    | case1 cs =>
      obtain ⟨rfl, rfl⟩ := Prod.mk.inj (Option.some.inj h)
      exact ⟨rfl, rfl⟩
    | case2 => cases h
    | case3 n c cs hle ih =>
      obtain ⟨⟨s, t⟩, hrest, heq⟩ := Option.map_eq_some_iff.mp h
      obtain ⟨rfl, rfl⟩ := Prod.mk.inj heq
      obtain ⟨rfl, hsize⟩ := ih hrest
      rw [utf8ByteSize_ofList_cons, hsize]
      exact ⟨rfl, Nat.add_sub_cancel' hle⟩
    | case4 => cases h
  · rintro ⟨rfl, rfl⟩
    induction s with
    | nil => simp [splitBytes?]
    | cons c s ih =>
      have hpos : 0 < c.utf8Size := Char.utf8Size_pos c
      obtain ⟨n, hn⟩ : ∃ n, (String.ofList (c :: s)).utf8ByteSize = n + 1 := by
        rw [utf8ByteSize_ofList_cons]
        exact ⟨_, (Nat.succ_pred_eq_of_pos (by omega)).symm⟩
      have hrest : n + 1 - c.utf8Size = (String.ofList s).utf8ByteSize := by
        rw [← hn, utf8ByteSize_ofList_cons, Nat.add_sub_cancel_left]
      have hle : c.utf8Size ≤ n + 1 := by
        rw [← hn, utf8ByteSize_ofList_cons]
        exact Nat.le_add_right ..
      rw [hn, List.cons_append, splitBytes?, if_pos hle, hrest, ih]
      rfl

/-- **What a span covers stands between two parts of the text which end and start at its ends.** -/
theorem slice?_eq_some_iff :
    slice? text span = some part ↔
      ∃ front back, text = front ++ part ++ back ∧ front.utf8ByteSize = span.start ∧
        (front ++ part).utf8ByteSize = span.stop := by
  constructor
  · intro h
    unfold slice? at h
    split at h
    · rename_i hle
      obtain ⟨⟨front, rest⟩, hfront, h⟩ := Option.bind_eq_some_iff.mp h
      obtain ⟨⟨inside, back⟩, hinside, h⟩ := Option.bind_eq_some_iff.mp h
      obtain rfl := Option.some.inj h
      obtain ⟨htext, hstart⟩ := splitBytes?_eq_some_iff.mp hfront
      obtain ⟨rfl, hsize⟩ := splitBytes?_eq_some_iff.mp hinside
      refine ⟨String.ofList front, String.ofList back, ?_, hstart, ?_⟩
      · rw [← String.ofList_append, ← String.ofList_append, List.append_assoc, ← htext,
          String.ofList_toList]
      · rw [String.utf8ByteSize_append, hstart, hsize, Nat.add_sub_cancel' hle]
    · cases h
  · rintro ⟨front, back, rfl, hstart, hstop⟩
    have hsize : span.stop - span.start = part.utf8ByteSize := by
      rw [← hstop, ← hstart, String.utf8ByteSize_append, Nat.add_sub_cancel_left]
    have hle : span.start ≤ span.stop := by
      rw [← hstop, ← hstart, String.utf8ByteSize_append]
      exact Nat.le_add_right ..
    have hfront : splitBytes? span.start (front ++ part ++ back).toList =
        some (front.toList, part.toList ++ back.toList) := by
      apply splitBytes?_eq_some_iff.mpr
      simp [hstart]
    have hinside : splitBytes? (span.stop - span.start) (part.toList ++ back.toList) =
        some (part.toList, back.toList) := by
      apply splitBytes?_eq_some_iff.mpr
      simp [hsize]
    rw [slice?, if_pos hle, hfront]
    change ((splitBytes? _ _).bind fun parts => some (String.ofList parts.1)) = some part
    rw [hinside, Option.bind_some, String.ofList_toList]

/-- The part of a text that is known to stand between two others. -/
theorem slice?_append (front part back : String) :
    slice? (front ++ part ++ back) ⟨front.utf8ByteSize, (front ++ part).utf8ByteSize⟩ =
      some part :=
  slice?_eq_some_iff.mpr ⟨front, back, rfl, rfl, rfl⟩

/-- What stands after a part of the text, up to the end. -/
theorem slice?_append_right (front back : String) :
    slice? (front ++ back) ⟨front.utf8ByteSize, (front ++ back).utf8ByteSize⟩ = some back := by
  have h := slice?_append front back ""
  rwa [String.append_empty] at h

end WebIdl.Text
