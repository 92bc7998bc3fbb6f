import MicewriterEngine.Model.IcebergWriter

/-!
# Commits that are reported as failed

The caller of `commit_with_retry` recompiles its column families under new file names when
the commit fails. That is safe unless an attempt took effect and was reported as an error:
the attempts after it are refused for its files.
-/

namespace MicewriterEngine.Proofs

variable {δ : Type} [DecidableEq δ] {env : CommitEnv} {files table : List δ}

/-- After a success the table has each file once, and after a failure none of them. -/
def SafeToRedo (files : List δ) : Except Error Unit × List δ → Prop
  | (.ok (), table) => ∀ f ∈ files, table.count f = 1
  | (.error _, table) => ∀ f ∈ files, f ∉ table

/-- The loop that begins with attempt `first` makes attempt `i`: no reload fails before it, and all
earlier attempts are rejected. -/
def ReachedFrom (env : CommitEnv) (first i : ℕ) : Prop :=
  (∀ j, first ≤ j → j ≤ i → 1 < j → env.reloadOk j = true) ∧
    ∀ j, first ≤ j → j < i → env.reply j = .rejected

/-- An attempt whose reply tells what it did, and whose files are different if it is applied. -/
def Unambiguous (files : List δ) (reply : CommitReply) : Prop :=
  reply ≠ .lost ∧ (reply = .accepted → files.Nodup)

lemma fastAppend_of_mem {reply : CommitReply} (h : ∃ f ∈ files, f ∈ table) :
    fastAppend files reply table = (.error .external, table) :=
  if_pos h

lemma fastAppend_of_new {reply : CommitReply} (h : ∀ f ∈ files, f ∉ table) :
    fastAppend files reply table = match reply with
      | .accepted => (.ok (), table ++ files)
      | .rejected => (.error .external, table)
      | .lost => (.error .external, table ++ files) := by
  refine if_neg ?_
  rintro ⟨f, hf, hmem⟩
  exact h f hf hmem

/-- Once one of the files is in the table, the loop fails and changes nothing. -/
lemma commitFrom_of_mem (remaining attempt : ℕ) (h : ∃ f ∈ files, f ∈ table) :
    ∃ e, commitFrom env files remaining attempt table = (.error e, table) := by
  induction remaining generalizing attempt with
  | zero =>
    unfold commitFrom
    split
    · exact ⟨_, rfl⟩
    · rw [fastAppend_of_mem h]
      exact ⟨_, rfl⟩
  | succ remaining ih =>
    unfold commitFrom
    split
    · exact ⟨_, rfl⟩
    · rw [fastAppend_of_mem h]
      exact ih (attempt + 1)

lemma count_append_eq_one_iff (hnew : ∀ f ∈ files, f ∉ table) :
    (∀ f ∈ files, (table ++ files).count f = 1) ↔ files.Nodup := by
  rw [List.nodup_iff_count_eq_one]
  refine forall₂_congr (fun f hf => ?_)
  rw [List.count_append, List.count_eq_zero_of_not_mem (hnew f hf), Nat.zero_add]

lemma reachedFrom_self {first : ℕ} (h : 1 < first → env.reloadOk first = true) : ReachedFrom env first first := by
  refine ⟨fun j hle hge hj => ?_, fun j hle hlt => absurd hle (Nat.not_le_of_lt hlt)⟩
  have hfirst : j = first := by omega
  rw [hfirst] at hj ⊢
  exact h hj

lemma reachedFrom_succ {first i : ℕ} (hreload : 1 < first → env.reloadOk first = true)
    (hreply : env.reply first = .rejected) :
    ReachedFrom env first i ↔ ReachedFrom env (first + 1) i := by
  constructor
  · rintro ⟨hreloads, hreplies⟩
    exact ⟨fun j hle => hreloads j (by omega), fun j hle => hreplies j (by omega)⟩
  · rintro ⟨hreloads, hreplies⟩
    refine ⟨fun j hle hge hj => ?_, fun j hle hlt' => ?_⟩
    · by_cases hfirst : j = first
      · rw [hfirst] at hj ⊢
        exact hreload hj
      · exact hreloads j (by omega) hge hj
    · by_cases hfirst : j = first
      · rw [hfirst, hreply]
      · exact hreplies j (by omega) hlt'

/-- The loop ends with the first attempt that is not rejected. -/
lemma eq_of_reachedFrom {first i : ℕ} (hreply : env.reply first ≠ .rejected) (hle : first ≤ i)
    (h : ReachedFrom env first i) : i = first := by
  by_contra hne
  exact hreply (h.2 first le_rfl (by omega))

lemma accepted_safe_iff (hnew : ∀ f ∈ files, f ∉ table) {attempt last : ℕ} (hlast : attempt ≤ last)
    (hreload : 1 < attempt → env.reloadOk attempt = true) (hreply : env.reply attempt = .accepted) :
    SafeToRedo files (.ok (), table ++ files) ↔
      ∀ i, attempt ≤ i → i ≤ last → ReachedFrom env attempt i → Unambiguous files (env.reply i) := by
  have hsafe : SafeToRedo files (.ok (), table ++ files) ↔ files.Nodup := count_append_eq_one_iff hnew
  rw [hsafe]
  constructor
  · intro hnodup i hle _ hreached
    have hi := eq_of_reachedFrom (by rw [hreply]; decide) hle hreached
    rw [hi, hreply]
    exact ⟨by decide, fun _ => hnodup⟩
  · intro h
    exact (h attempt le_rfl hlast (reachedFrom_self hreload)).2 hreply

omit [DecidableEq δ] in
/-- After a reload that fails no attempt is made. -/
lemma unambiguous_of_reload_failed {attempt last : ℕ} (hfails : 1 < attempt ∧ env.reloadOk attempt = false) :
    ∀ i, attempt ≤ i → i ≤ last → ReachedFrom env attempt i → Unambiguous files (env.reply i) := by
  intro i hle _ hreached
  have hreload := hreached.1 attempt le_rfl hle hfails.1
  rw [hfails.2] at hreload
  cases hreload

omit [DecidableEq δ] in
lemma not_unambiguous_of_lost {attempt last : ℕ} (hlast : attempt ≤ last)
    (hreload : 1 < attempt → env.reloadOk attempt = true) (hreply : env.reply attempt = .lost) :
    ¬∀ i, attempt ≤ i → i ≤ last → ReachedFrom env attempt i → Unambiguous files (env.reply i) :=
  fun h => (h attempt le_rfl hlast (reachedFrom_self hreload)).1 hreply

lemma not_safe_of_mem (hfiles : files ≠ []) {result : Except Error Unit × List δ}
    (h : ∃ e, result = (.error e, table ++ files)) : ¬SafeToRedo files result := by
  obtain ⟨e, rfl⟩ := h
  obtain ⟨f, hf⟩ := List.exists_mem_of_ne_nil files hfiles
  exact fun hsafe => hsafe f hf (List.mem_append_right table hf)

/-- The loop from any attempt on is safe exactly when the attempts that it makes are unambiguous. -/
lemma commitFrom_safe_iff (hfiles : files ≠ []) (hnew : ∀ f ∈ files, f ∉ table) (remaining attempt : ℕ) :
    SafeToRedo files (commitFrom env files remaining attempt table) ↔
      ∀ i, attempt ≤ i → i ≤ attempt + remaining → ReachedFrom env attempt i → Unambiguous files (env.reply i) := by
  induction remaining generalizing attempt with
  | zero =>
    unfold commitFrom
    split
    · rename_i hfails
      exact iff_of_true hnew (unambiguous_of_reload_failed hfails)
    · rename_i hmade
      have hreload : 1 < attempt → env.reloadOk attempt = true := by simpa using hmade
      rw [fastAppend_of_new hnew]
      cases hreply : env.reply attempt with
      | accepted => exact accepted_safe_iff hnew le_rfl hreload hreply
      | rejected =>
        refine iff_of_true hnew (fun i hle hge _ => ?_)
        have hi : i = attempt := by omega
        rw [hi, hreply]
        exact ⟨by decide, by simp⟩
      | lost =>
        exact iff_of_false (not_safe_of_mem hfiles ⟨_, rfl⟩) (not_unambiguous_of_lost le_rfl hreload hreply)
  | succ remaining ih =>
    unfold commitFrom
    split
    · rename_i hfails
      exact iff_of_true hnew (unambiguous_of_reload_failed hfails)
    · rename_i hmade
      have hreload : 1 < attempt → env.reloadOk attempt = true := by simpa using hmade
      rw [fastAppend_of_new hnew]
      cases hreply : env.reply attempt with
      | accepted => exact accepted_safe_iff hnew (by omega) hreload hreply
      | rejected =>
        dsimp only
        rw [ih (attempt + 1)]
        constructor
        · intro h i hle hge hreached
          by_cases hi : i = attempt
          · rw [hi, hreply]
            exact ⟨by decide, by simp⟩
          · exact h i (by omega) (by omega) ((reachedFrom_succ hreload hreply).mp hreached)
        · intro h i hle hge hreached
          exact h i (by omega) (by omega) ((reachedFrom_succ hreload hreply).mpr hreached)
      | lost =>
        have hmem : ∃ f ∈ files, f ∈ table ++ files := by
          obtain ⟨f, hf⟩ := List.exists_mem_of_ne_nil files hfiles
          exact ⟨f, hf, List.mem_append_right table hf⟩
        exact iff_of_false (not_safe_of_mem hfiles (commitFrom_of_mem remaining (attempt + 1) hmem))
          (not_unambiguous_of_lost (by omega) hreload hreply)

/-- `commit_with_retry` leaves a table that its caller can rely on exactly when none of the attempts
that it makes is applied and reported as an error, and the files of an accepted one are different. -/
theorem commitWithRetry_safe_iff (hfiles : files ≠ []) (hnew : ∀ f ∈ files, f ∉ table) :
    SafeToRedo files (commitWithRetry env files table) ↔
      ∀ i, 1 ≤ i → i ≤ maxAttempts → ReachedFrom env 1 i → Unambiguous files (env.reply i) :=
  commitFrom_safe_iff hfiles hnew (maxAttempts - 1) 1

/-- The second attempt of two is accepted. -/
theorem commitWithRetry_safe_retry :
    SafeToRedo [7, 8]
      (commitWithRetry ⟨fun _ => true, fun i => if i = 1 then .rejected else .accepted⟩ [7, 8] [5]) := by
  refine (commitWithRetry_safe_iff (by decide) (by decide)).mpr (fun i _ _ _ => ⟨?_, fun _ => by decide⟩)
  dsimp only
  split <;> decide

/-- The reply of the first attempt is lost. The other four are refused, and the commit fails with
its files in the table. -/
theorem lost_reply_fails_after_commit :
    ¬∀ (δ : Type) (_ : DecidableEq δ) (env : CommitEnv) (files table : List δ), files ≠ [] →
      (∀ f ∈ files, f ∉ table) → SafeToRedo files (commitWithRetry env files table) := by
  intro h
  have hsafe := h ℕ inferInstance ⟨fun _ => true, fun i => if i = 1 then .lost else .rejected⟩ [7] []
    (by decide) (by decide)
  exact hsafe 7 (by decide) (by decide)

end MicewriterEngine.Proofs
