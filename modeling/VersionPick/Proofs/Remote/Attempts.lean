/-
The number of attempts that a download tells of when it gives up. The retries
are counted in 32 bits, and up to the limit of the settings the count is the
true one (`count_retries`). What is told is one more, which is the number of
requests made but for the largest limit that settings can hold: there the count
is back at zero (`attempts_true_iff`).
-/
import VersionPick.Proofs.Remote.Download

namespace VersionPick

/-- A count of 32 bits is followed by the next number unless it is the largest. -/
theorem toNat_succ_eq_iff (n : UInt32) : (n + 1).toNat = n.toNat + 1 ↔ n ≠ 4294967295 := by
  have hsucc : (n + 1).toNat = (n.toNat + 1) % 2 ^ 32 := UInt32.toNat_add n 1
  have hlargest : n = 4294967295 ↔ n.toNat = 4294967295 := UInt32.toNat_inj.symm
  have hlt := n.toNat_lt
  rw [hsucc, ne_eq, hlargest]
  omega

namespace Client

section
variable (settings : Settings) (answers : Answers)

/-- Where the loop is once some attempts have failed that may be repeated: it
has counted them all. -/
theorem count_retries {made : Nat} (hmade : made ≤ settings.maxRetries.toNat)
    (h : ∀ i < made, ¬ Conclusive (answers i)) :
    let loop := (scripted answers).attempt settings.retryDelay ((scripted answers).download settings.versionsUrl)
    ∃ (retries : UInt32) (record : List ClientAction), retries.toNat = made ∧
      record.countP ClientAction.isRequest = made ∧
      (loop settings.maxRetries.toNat 0).run [] = (loop (settings.maxRetries.toNat - made) retries).run record := by
  have hafter := attempt_after settings.versionsUrl settings.retryDelay h (settings.maxRetries.toNat - made)
  rw [Nat.sub_add_cancel hmade] at hafter
  have hfits : made < 2 ^ 32 := Nat.lt_of_le_of_lt hmade settings.maxRetries.toNat_lt
  exact ⟨UInt32.ofNat made, repeated settings.versionsUrl settings.retryDelay made, UInt32.toNat_ofNat_of_lt' hfits,
    countP_repeated _ _ made, hafter⟩

/-- A download gives up only when no answer was conclusive. -/
theorem not_conclusive_of_unavailable {attempts : UInt32} {last : FetchError}
    (h : (((scripted answers).fetchCatalogue settings).run []).1 = .error (.unavailable attempts last)) :
    ∀ i ≤ settings.maxRetries.toNat, ¬ Conclusive (answers i) := by
  rcases conclusive_cases answers settings.maxRetries.toNat with hall | ⟨k, hk, hconclusive, hbefore⟩
  · exact hall
  · obtain ⟨document, hrun, hconcludes⟩ := attempt_conclusive settings.versionsUrl settings.retryDelay hconclusive
      hbefore (settings.maxRetries.toNat - k)
    rw [Nat.sub_add_cancel hk] at hrun
    rw [run_fetchCatalogue hrun] at h
    change document.bind Catalogue.ofDocument = _ at h
    rw [h] at hconcludes
    generalize answers k = answer at hconcludes
    cases hconcludes

end

/-- **The number of attempts** that is told when a download gives up is the
number of requests that were made, unless the settings allow the largest number
of retries that they can hold. The count of retries is the true one throughout. -/
theorem attempts_true_iff (settings : Settings) (answers : Answers) :
    let loop := (scripted answers).attempt settings.retryDelay ((scripted answers).download settings.versionsUrl)
    let outcome := ((scripted answers).fetchCatalogue settings).run []
    (∀ made ≤ settings.maxRetries.toNat, (∀ i < made, ¬ Conclusive (answers i)) →
      ∃ (retries : UInt32) (record : List ClientAction), retries.toNat = made ∧
        record.countP ClientAction.isRequest = made ∧
        (loop settings.maxRetries.toNat 0).run [] = (loop (settings.maxRetries.toNat - made) retries).run record) ∧
    ∀ attempts last, outcome.1 = .error (.unavailable attempts last) →
      outcome.2.countP ClientAction.isRequest = settings.maxRetries.toNat + 1 ∧
      (attempts.toNat = outcome.2.countP ClientAction.isRequest ↔ settings.maxRetries ≠ 4294967295) := by
  intro loop outcome
  refine ⟨fun made => count_retries settings answers, fun attempts last h => ?_⟩
  have hrun : outcome = _ := run_fetchCatalogue_spent settings (not_conclusive_of_unavailable settings answers h)
  have hmade : outcome.2.countP ClientAction.isRequest = settings.maxRetries.toNat + 1 := by
    rw [hrun, List.countP_append, countP_repeated]
    rfl
  have hattempts : attempts = settings.maxRetries + 1 := by
    rw [hrun] at h
    cases h
    rfl
  exact ⟨hmade, by rw [hmade, hattempts, toNat_succ_eq_iff]⟩

/-- One retry, and two failures of different kinds. -/
theorem attempts_true_one_retry :
    let settings : Settings := { maxRetries := 1 }
    let lost : TransportFault := ⟨false, "connection closed", []⟩
    let answers : Answers := fun i => if i = 0 then .ok ⟨503, "", none⟩ else .error lost
    let outcome := ((scripted answers).fetchCatalogue settings).run []
    outcome.1 = .error (.unavailable 2 (.transport lost)) ∧
      outcome.2.countP ClientAction.isRequest = 2 := by
  intro settings lost answers outcome
  have hfailures : ∀ i ≤ settings.maxRetries.toNat, ¬ Conclusive (answers i) := by
    intro i _
    cases i with
    | zero => simp [answers, conclusive_ok_iff, Response.isSuccess]
    | succ i =>
      intro h
      cases h with
      | badAddress h => cases h
  have houtcome : outcome.1 = .error (.unavailable 2 (.transport lost)) :=
    congrArg Prod.fst (run_fetchCatalogue_spent settings hfailures)
  have htrue := ((attempts_true_iff settings answers).2 2 _ houtcome).2.mpr (by decide)
  exact ⟨houtcome, htrue.symm⟩

/-- With the largest number of retries, 2^32 attempts are made, and none is
told of. -/
theorem attempts_lost :
    let settings : Settings := { maxRetries := 4294967295 }
    let answers : Answers := fun _ => .ok ⟨503, "", none⟩
    let outcome := ((scripted answers).fetchCatalogue settings).run []
    outcome.1 = .error (.unavailable 0 (.status 503 settings.versionsUrl)) ∧
      outcome.2.countP ClientAction.isRequest = 4294967296 := by
  intro settings answers outcome
  have hfailures : ∀ i ≤ settings.maxRetries.toNat, ¬ Conclusive (answers i) := by
    intro i _
    simp [answers, conclusive_ok_iff, Response.isSuccess]
  have hzero : settings.maxRetries + 1 = 0 := by decide
  have hrun : outcome = _ := run_fetchCatalogue_spent settings hfailures
  rw [hrun, hzero]
  refine ⟨rfl, ?_⟩
  rw [List.countP_append, countP_repeated]
  rfl

end Client

end VersionPick
