import FtIrc.Lib.Bytes

/-!
# Records of a delimited stream

A stream cut behind each delimiter: the complete records, and the residue behind the last
one. Cutting may be done piece by piece, as long as the residue is carried over, and a
concatenation of records is cut into these records again.
-/

section Records

variable {α : Type} [DecidableEq α]

/-- The complete records of a stream, each with its delimiter. -/
def records (d : α) (s : List α) : List (List α) := (s.splitOn d).dropLast.map (· ++ [d])

/-- What follows the last delimiter of a stream. -/
def residue (d : α) (s : List α) : List α := (s.splitOn d).getLast (List.splitOn_ne_nil d s)

variable {d : α} {l s t : List α}

/-- A stream without a delimiter is all residue. -/
theorem records_of_not_mem (h : d ∉ s) : records d s = [] := by
  rw [records, List.splitOn_eq_singleton h]
  rfl

theorem residue_of_not_mem (h : d ∉ s) : residue d s = s := by
  unfold residue
  simp only [List.splitOn_eq_singleton h, List.getLast_singleton]

/-- The first record ends at the first delimiter. -/
theorem records_append_cons (h : d ∉ l) (t : List α) :
    records d (l ++ d :: t) = (l ++ [d]) :: records d t := by
  rw [records, List.splitOn_append_cons_self, List.splitOn_eq_singleton h, List.singleton_append,
    List.dropLast_cons_of_ne_nil (List.splitOn_ne_nil d t), List.map_cons]
  rfl

theorem residue_append_cons (h : d ∉ l) (t : List α) : residue d (l ++ d :: t) = residue d t := by
  unfold residue
  simp only [List.splitOn_append_cons_self, List.splitOn_eq_singleton h, List.singleton_append,
    List.getLast_cons (List.splitOn_ne_nil d t)]

/-- A stream has no delimiter, or it starts with a record. -/
theorem List.induction_records {motive : List α → Prop} (s : List α)
    (rest : ∀ s, d ∉ s → motive s) (record : ∀ l t, d ∉ l → motive t → motive (l ++ d :: t)) :
    motive s := by
  induction hn : s.length using Nat.strong_induction_on generalizing s with
  | _ n ih =>
    by_cases hd : d ∈ s
    · obtain ⟨l, t, rfl, hl⟩ := List.eq_append_cons_of_mem hd
      refine record l t hl (ih t.length ?_ t rfl)
      rw [← hn, List.length_append, List.length_cons]
      omega
    · exact rest s hd

theorem not_mem_residue (d : α) (s : List α) : d ∉ residue d s := by
  induction s using List.induction_records (d := d) with
  | rest s h => rwa [residue_of_not_mem h]
  | record l t hl ih => rwa [residue_append_cons hl]

/-- Nothing is lost in cutting. -/
theorem flatten_records (d : α) (s : List α) : (records d s).flatten ++ residue d s = s := by
  induction s using List.induction_records (d := d) with
  | rest s h => rw [records_of_not_mem h, residue_of_not_mem h, List.flatten_nil, List.nil_append]
  | record l t hl ih =>
    rw [records_append_cons hl, residue_append_cons hl, List.flatten_cons, List.append_assoc, ih,
      List.append_assoc]
    rfl

theorem length_residue_le (d : α) (s : List α) : (residue d s).length ≤ s.length := by
  have hflatten := congrArg List.length (flatten_records d s)
  rw [List.length_append] at hflatten
  omega

/-- A stream may be cut in two goes if the residue of the first goes into the second. -/
theorem records_append (d : α) (s t : List α) :
    records d (s ++ t) = records d s ++ records d (residue d s ++ t) := by
  induction s using List.induction_records (d := d) with
  | rest s h => rw [records_of_not_mem h, residue_of_not_mem h, List.nil_append]
  | record l s hl ih =>
    rw [List.append_assoc, List.cons_append, records_append_cons hl, records_append_cons hl,
      residue_append_cons hl, ih, List.cons_append]

theorem residue_append (d : α) (s t : List α) :
    residue d (s ++ t) = residue d (residue d s ++ t) := by
  induction s using List.induction_records (d := d) with
  | rest s h => rw [residue_of_not_mem h]
  | record l s hl ih =>
    rw [List.append_assoc, List.cons_append, residue_append_cons hl, residue_append_cons hl, ih]

/-- Cutting undoes the concatenation of records. -/
theorem records_flatten {rs : List (List α)} (h : ∀ r ∈ rs, ∃ l, r = l ++ [d] ∧ d ∉ l) :
    records d rs.flatten = rs ∧ residue d rs.flatten = [] := by
  induction rs with
  | nil => exact ⟨records_of_not_mem List.not_mem_nil, residue_of_not_mem List.not_mem_nil⟩
  | cons r rs ih =>
    obtain ⟨l, rfl, hl⟩ := h r List.mem_cons_self
    obtain ⟨hrecords, hresidue⟩ := ih fun r hr => h r (List.mem_cons_of_mem _ hr)
    rw [List.flatten_cons, List.append_assoc, List.singleton_append, records_append_cons hl,
      residue_append_cons hl, hrecords, hresidue]
    exact ⟨rfl, rfl⟩

end Records
