import MicewriterEngine.Model.IcebergSchema
import Mathlib.Data.List.Nodup
import Mathlib.Tactic.Ring

/-!
# Field ids

Both conversions of a type take one id for each level of its lists, in order. A column of
the Iceberg schema takes its own id before, so the ids of a schema in pre-order count from
one.
-/

namespace MicewriterEngine.Proofs

/-- How many lists are nested in each other. -/
def depth : MappedType → ℕ
  | .list inner => depth inner + 1
  | _ => 0

/-- The ids of the elements, from the outermost list inwards. -/
def icebergElementIds : IcebergType → List ℤ
  | .primitive _ => []
  | .list elementId _ _ element => elementId :: icebergElementIds element

/-- The same ids as Parquet reads them from the metadata of the elements. -/
def arrowElementIds : DataType → List (Option String)
  | .list _ item _ metadata => metadata.lookup "PARQUET:field_id" :: arrowElementIds item
  | _ => []

/-- The ids of a schema in pre-order: a column, its elements, the next column. -/
def schemaIds (fields : List NestedField) : List ℤ :=
  fields.flatMap (fun f => f.id :: icebergElementIds f.fieldType)

def withoutMetadata : DataType → DataType
  | .list itemName item itemNullable _ => .list itemName (withoutMetadata item) itemNullable []
  | d => d

/-- How many ids a schema takes. -/
def idCount (fieldDefs : List FieldDef) : ℕ :=
  (fieldDefs.map (fun f => depth (MappedType.fromStrOrString f.fieldType) + 1)).sum

/-- As many consecutive ids. -/
def idsFrom (n : ℤ) (count : ℕ) : List ℤ := (List.range count).map (fun i : ℕ => n + (i : ℤ))

lemma idsFrom_succ (n : ℤ) (count : ℕ) : idsFrom n (count + 1) = n :: idsFrom (n + 1) count := by
  rw [idsFrom, List.range_succ_eq_map, List.map_cons, List.map_map, idsFrom]
  congr 1
  · exact add_zero n
  · apply List.map_congr_left
    intro i _
    simp only [Function.comp_apply, Nat.succ_eq_add_one, Nat.cast_add, Nat.cast_one]
    ring

lemma idsFrom_add (n : ℤ) (a b : ℕ) : idsFrom n (a + b) = idsFrom n a ++ idsFrom (n + a) b := by
  induction a generalizing n with
  | zero => simp [idsFrom]
  | succ a ih =>
    have hnext : n + ((a + 1 : ℕ) : ℤ) = n + 1 + a := by
      push_cast
      ring
    rw [Nat.add_right_comm, idsFrom_succ, idsFrom_succ, ih, List.cons_append, hnext]

lemma nodup_idsFrom (n : ℤ) (count : ℕ) : (idsFrom n count).Nodup := by
  refine List.Nodup.map (fun i j h => ?_) List.nodup_range
  exact Int.ofNat_inj.mp (add_left_cancel h)

lemma toArrow_snd (t : MappedType) (n : ℤ) : (t.toArrow n).2 = n + depth t := by
  induction t generalizing n with
  | list inner ih =>
    simp only [MappedType.toArrow, ih, depth, Nat.cast_add, Nat.cast_one]
    ring
  | _ => exact (add_zero n).symm

lemma toIceberg_snd (t : MappedType) (n : ℤ) : (t.toIceberg n).2 = n + depth t := by
  induction t generalizing n with
  | list inner ih =>
    simp only [MappedType.toIceberg, ih, depth, Nat.cast_add, Nat.cast_one]
    ring
  | _ => exact (add_zero n).symm

lemma icebergElementIds_toIceberg (t : MappedType) (n : ℤ) :
    icebergElementIds (t.toIceberg n).1 = idsFrom n (depth t) := by
  induction t generalizing n with
  | list inner ih =>
    rw [depth, idsFrom_succ, ← ih]
    rfl
  | _ => rfl

lemma arrowElementIds_toArrow (t : MappedType) (n : ℤ) :
    arrowElementIds (t.toArrow n).1 = (idsFrom n (depth t)).map (fun id => some (toString id)) := by
  induction t generalizing n with
  | list inner ih =>
    rw [depth, idsFrom_succ, List.map_cons, ← ih]
    rfl
  | _ => rfl

lemma withoutMetadata_toArrow (t : MappedType) (m n : ℤ) :
    withoutMetadata (t.toArrow m).1 = withoutMetadata (t.toArrow n).1 := by
  induction t generalizing m n with
  | list inner ih =>
    simp only [MappedType.toArrow, withoutMetadata, DataType.list.injEq, true_and, and_true]
    exact ih (m + 1) (n + 1)
  | _ => rfl

lemma withoutMetadata_toArrow_inj {t u : MappedType} {m n : ℤ}
    (h : withoutMetadata (t.toArrow m).1 = withoutMetadata (u.toArrow n).1) : t = u := by
  induction t generalizing u m n with
  | list inner ih =>
    cases u with
    | list inner' =>
      simp only [MappedType.toArrow, withoutMetadata, DataType.list.injEq, true_and, and_true] at h
      rw [ih h]
    | _ => simp [MappedType.toArrow, withoutMetadata] at h
  | _ => cases u <;> first | rfl | simp [MappedType.toArrow, withoutMetadata] at h

lemma toIceberg_inj {t u : MappedType} {n : ℤ} (h : (t.toIceberg n).1 = (u.toIceberg n).1) : t = u := by
  induction t generalizing u n with
  | list inner ih =>
    cases u with
    | list inner' =>
      simp only [MappedType.toIceberg, IcebergType.list.injEq, true_and] at h
      rw [ih h]
    | _ => simp [MappedType.toIceberg] at h
  | _ => cases u <;> first | rfl | simp [MappedType.toIceberg] at h

/-- Both conversions move the counter by the depth and number the elements alike, and different
types have different columns on either side. -/
theorem conversions_in_step (t : MappedType) (n : ℤ) :
    ((t.toArrow n).2 = n + depth t ∧ (t.toIceberg n).2 = n + depth t ∧
      arrowElementIds (t.toArrow n).1 =
        (icebergElementIds (t.toIceberg n).1).map (fun id => some (toString id))) ∧
    ∀ u m, (withoutMetadata (t.toArrow n).1 = withoutMetadata (u.toArrow m).1 ↔ t = u) ∧
      ((t.toIceberg n).1 = (u.toIceberg n).1 ↔ t = u) := by
  refine ⟨⟨toArrow_snd t n, toIceberg_snd t n, ?_⟩, fun u m => ⟨⟨withoutMetadata_toArrow_inj, ?_⟩, ?_⟩⟩
  · rw [arrowElementIds_toArrow, icebergElementIds_toIceberg]
  · rintro rfl
    exact withoutMetadata_toArrow t n m
  · exact ⟨toIceberg_inj, fun heq => heq ▸ rfl⟩

lemma schemaIds_icebergFields (fieldDefs : List FieldDef) (n : ℤ) :
    schemaIds (icebergFields n fieldDefs) = idsFrom n (idCount fieldDefs) := by
  induction fieldDefs generalizing n with
  | nil => rfl
  | cons f fieldDefs ih =>
    let t := MappedType.fromStrOrString f.fieldType
    have hcount : idCount (f :: fieldDefs) = depth t + idCount fieldDefs + 1 := by
      have hsum : idCount (f :: fieldDefs) = depth t + 1 + idCount fieldDefs := rfl
      omega
    have hfields : schemaIds (icebergFields n (f :: fieldDefs)) =
        n :: (icebergElementIds (t.toIceberg (n + 1)).1 ++
          schemaIds (icebergFields (t.toIceberg (n + 1)).2 fieldDefs)) := rfl
    rw [hfields, ih, icebergElementIds_toIceberg, toIceberg_snd, hcount, idsFrom_succ, idsFrom_add]

/-- The ids that `build_iceberg_schema` allots are one to their number, in pre-order. -/
theorem schema_ids_well_formed (fieldDefs : List FieldDef) :
    (schemaIds (nestedFields fieldDefs)).Nodup ∧
      schemaIds (nestedFields fieldDefs) = idsFrom 1 (idCount fieldDefs) := by
  have hids : schemaIds (nestedFields fieldDefs) = idsFrom 1 (idCount fieldDefs) :=
    schemaIds_icebergFields fieldDefs 1
  refine ⟨?_, hids⟩
  rw [hids]
  exact nodup_idsFrom 1 _

end MicewriterEngine.Proofs
