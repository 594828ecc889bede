/-
  SeededRows.Proofs.Csv.RoundTrip

  Tables as text read back. Whatever the fields are made of, reading what was written gives the
  records again, as long as every record has a field; a record without fields is written like one
  with a single empty field, so it could not be told from that.
-/
import SeededRows.Csv

namespace SeededRows.Csv

variable {record : List String} {records : List (List String)}

/-! ## Fields -/

/-- What may follow a field. -/
def EndsField (c : Char) : Prop := c = ',' ∨ c = '\n'

/-- A character of a field without quotes is taken as it is. -/
theorem isSpecial_eq_false {c : Char} (h : isSpecial c = false) :
    c ≠ ',' ∧ c ≠ quote ∧ c ≠ '\r' ∧ c ≠ '\n' := by
  simpa [isSpecial] using h

/-- Inside quotes, doubled quotes and all other characters read back, up to the closing quote. -/
theorem decodeFrom_doubled (cs field rest : List Char) :
    decodeFrom .quoted field record records (doubled cs ++ quote :: rest) =
      decodeFrom .closed (cs.reverse ++ field) record records rest := by
  induction cs generalizing field with
  | nil => rw [doubled, List.nil_append, decodeFrom, if_pos rfl, List.reverse_nil, List.nil_append]
  | cons c cs ih =>
    have hreverse : (c :: cs).reverse ++ field = cs.reverse ++ c :: field := by simp
    rw [hreverse, ← ih, doubled]
    by_cases hc : c = quote
    · rw [if_pos hc, hc, List.cons_append, List.cons_append, decodeFrom, if_pos rfl, decodeFrom,
        if_pos rfl]
    · rw [if_neg hc, List.cons_append, decodeFrom, if_neg hc]

/-- Characters that need no quotes read back. -/
theorem decodeFrom_bare {cs : List Char} (hcs : cs.any isSpecial = false) (field rest : List Char) :
    decodeFrom .bare field record records (cs ++ rest) =
      decodeFrom .bare (cs.reverse ++ field) record records rest := by
  induction cs generalizing field with
  | nil => rfl
  | cons c cs ih =>
    rw [List.any_cons, Bool.or_eq_false_iff] at hcs
    obtain ⟨hcomma, hquote, hreturn, hline⟩ := isSpecial_eq_false hcs.1
    have hreverse : (c :: cs).reverse ++ field = cs.reverse ++ c :: field := by simp
    rw [hreverse, ← ih hcs.2, List.cons_append, decodeFrom]
    simp only [hcomma, hquote, hreturn, hline, or_self, if_false]

/-- A field ends alike with quotes and without them. -/
theorem decodeFrom_ends {c : Char} (hc : EndsField c) (field rest : List Char) :
    decodeFrom .bare field record records (c :: rest) =
      decodeFrom .closed field record records (c :: rest) := by
  rcases hc with rfl | rfl <;> rfl

/-- A field reads back. -/
theorem decodeFrom_field {c : Char} (hc : EndsField c) (field rest : List Char) :
    decodeFrom .fieldStart [] record records (encodeField field ++ c :: rest) =
      decodeFrom .closed field.reverse record records (c :: rest) := by
  rw [encodeField]
  split
  · rw [List.cons_append, List.append_assoc, decodeFrom, if_pos rfl]
    exact (decodeFrom_doubled field [] (c :: rest)).trans (by rw [List.append_nil])
  · rename_i hspecial
    cases field with
    | nil => rcases hc with rfl | rfl <;> rfl
    | cons first field =>
      rw [Bool.not_eq_true, List.any_cons, Bool.or_eq_false_iff] at hspecial
      obtain ⟨hcomma, hquote, hreturn, hline⟩ := isSpecial_eq_false hspecial.1
      rw [List.cons_append, decodeFrom]
      simp only [hcomma, hquote, hreturn, hline, if_false]
      rw [decodeFrom_bare hspecial.2, decodeFrom_ends hc, List.reverse_cons]

/-! ## Records -/

theorem encodeFields_cons (field next : List Char) (fields : List (List Char)) :
    encodeFields (field :: next :: fields) =
      encodeField field ++ ',' :: encodeFields (next :: fields) := rfl

/-- The fields of a record read back. -/
theorem decodeFrom_fields {fields : List (List Char)} (hfields : fields ≠ []) (rest : List Char) :
    decodeFrom .fieldStart [] record records (encodeFields fields ++ '\n' :: rest) =
      decodeFrom .fieldStart [] []
        ((record.reverse ++ fields.map String.ofList) :: records) rest := by
  induction fields generalizing record with
  | nil => exact absurd rfl hfields
  | cons field fields ih =>
    cases fields with
    | nil =>
      rw [encodeFields, decodeFrom_field (.inr rfl), decodeFrom]
      simp [quote]
    | cons next fields =>
      rw [encodeFields_cons, List.append_assoc, List.cons_append, decodeFrom_field (.inl rfl),
        decodeFrom]
      simp only [quote, Char.reduceEq, if_false, if_true, List.reverse_reverse]
      rw [ih (List.cons_ne_nil next fields)]
      simp

/-- Only a single empty field is written as nothing. -/
theorem encodeFields_eq_nil {fields : List (List Char)} (hfields : fields ≠ [])
    (h : encodeFields fields = []) : fields = [[]] := by
  cases fields with
  | nil => exact absurd rfl hfields
  | cons field fields =>
    cases fields with
    | nil =>
      rw [encodeFields, encodeField] at h
      split at h
      · cases h
      · rw [h]
    | cons next fields =>
      rw [encodeFields_cons] at h
      simp at h

/-- A record reads back. -/
theorem decodeFrom_record {r : List String} (hr : r ≠ []) (rest : List Char) :
    decodeFrom .fieldStart [] [] records (encodeRecord r ++ rest) =
      decodeFrom .fieldStart [] [] (r :: records) rest := by
  have hfields : r.map (·.toList) ≠ [] := by simpa using hr
  have hback : (r.map (·.toList)).map String.ofList = r := by
    rw [List.map_map]
    simp [Function.comp_def]
  rw [encodeRecord]
  by_cases hline : encodeFields (r.map (·.toList)) = []
  · -- it would be an empty line, so it is a pair of quotes
    have hsingle := encodeFields_eq_nil hfields hline
    rw [hsingle] at hback
    rw [hline, ← hback]
    rfl
  · rw [if_neg (by simpa using hline), List.append_assoc]
    exact (decodeFrom_fields hfields rest).trans (by rw [hback]; rfl)

/-! ## Tables -/

theorem decodeFrom_table {table : List (List String)} (htable : ∀ r ∈ table, r ≠ []) :
    decodeFrom .fieldStart [] [] records (table.flatMap encodeRecord) =
      some (records.reverse ++ table) := by
  induction table generalizing records with
  | nil =>
    rw [List.append_nil]
    rfl
  | cons r table ih =>
    rw [List.flatMap_cons, decodeFrom_record (htable r List.mem_cons_self),
      ih fun r' hr' => htable r' (List.mem_cons_of_mem r hr'), List.reverse_cons, List.append_assoc]
    rfl

/-- A table reads back. -/
theorem decode_render {table : List (List String)} (htable : ∀ r ∈ table, r ≠ []) :
    decode (render table) = some table := by
  have htext : (render table).toList = table.flatMap encodeRecord := by
    rw [render, String.toList_join, List.flatMap_map]
    simp [recordText]
  rw [decode, htext, decodeFrom_table htable, List.reverse_nil, List.nil_append]

end SeededRows.Csv
