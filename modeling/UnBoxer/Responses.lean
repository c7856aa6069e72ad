import UnBoxer.Instances

namespace UnBoxer.Responses

open UnBoxer.Programs UnBoxer.JsonStrings UnBoxer.JsonParser UnBoxer.PathText UnBoxer.Archives
open UnBoxer.EscapeJson UnBoxer.TryBackup UnBoxer.TryExtract UnBoxer.RustIdevice
open UnBoxer.BackupEngine UnBoxer.Instances

section Receive

variable {parseError : Text → Text} {what e zip backupType : Text}

theorem nul_decimalInt (z : Int) : nul ∉ decimalInt z := by
  intro h
  obtain h | h := List.mem_append.mp h
  · split at h
    · revert h
      decide
    · cases h
  · exact absurd (decimal_digit h) (by decide)

theorem nul_successResponse (total : Int64) (hz : nul ∉ zip) (hb : nul ∉ backupType) :
    nul ∉ successResponse zip total backupType := by
  have h₁ : nul ∉ "\x7b\"status\":\"success\",\"zip_path\":\"".toList := by decide
  have h₂ : nul ∉ "\",\"total_bytes\":".toList := by decide
  have h₃ : nul ∉ ",\"backup_type\":\"".toList := by decide
  have h₄ : nul ∉ "\"\x7d".toList := by decide
  unfold successResponse
  repeat rw [List.mem_append, not_or]
  exact ⟨⟨⟨⟨⟨⟨h₁, nul_escapeJson hz⟩, h₂⟩, nul_decimalInt _⟩, h₃⟩, hb⟩, h₄⟩

theorem receive_error (he : nul ∉ e) : receive parseError what (errorResponse e) =
    .error (.error (if Clean e then e else parseError (errorResponse e))) := by
  rw [receive_eq (nul_errorResponse he)]
  by_cases hc : Clean e
  · rw [checkResponse_obj (parse_errorResponse hc) rfl, if_pos rfl, if_pos hc]
    rfl
  · rw [checkResponse_none (parse_errorResponse_none hc), if_neg hc]
    rfl

/-- An error that crosses the bridge never looks like a success. -/
theorem received_error (parseError : Text → Text) (what e answer : Text) :
    received parseError what (.error (.error e)) ≠ .ok answer := by
  intro h
  simp only [received] at h
  by_cases hn : nul ∈ errorResponse e
  · simp [receive, toChar, hn] at h
  · rw [receive_eq hn] at h
    by_cases he : Clean e
    · rw [checkResponse_obj (parse_errorResponse he) rfl, if_pos rfl] at h
      cases h
    · rw [checkResponse_none (parse_errorResponse_none he)] at h
      cases h

theorem receive_success (total : Int64) (hz : nul ∉ zip) (hb : ∀ c ∈ backupType, Plain c) :
    receive parseError what (successResponse zip total backupType) =
      if Clean zip then .ok (successResponse zip total backupType)
      else .error (.error (parseError (successResponse zip total backupType))) := by
  have hn : nul ∉ backupType := fun h => absurd (hb _ h) (by decide)
  rw [receive_eq (nul_successResponse total hz hn)]
  by_cases hc : Clean zip
  · rw [checkResponse_obj (parse_successResponse total hc hb) rfl, if_neg (by decide), if_pos hc]
    rfl
  · rw [checkResponse_none (parse_successResponse_none total hc hb), if_neg hc]
    rfl

theorem readResponse_success (F : Foundation) (total : Int64) (hz : Clean zip)
    (hb : ∀ c ∈ backupType, Plain c) : readResponse F (successResponse zip total backupType) =
      .ok (zip, decide (backupType = "documents".toList)) := by
  have hp := parse_successResponse total hz hb
  have hz : ∀ t v, stringAt [("status".toList, v), ("zip_path".toList, .str zip),
      ("total_bytes".toList, t), ("backup_type".toList, .str backupType)] "zip_path".toList =
      some zip := fun _ _ => rfl
  have ht : ∀ t v, stringAt [("status".toList, v), ("zip_path".toList, .str zip),
      ("total_bytes".toList, t), ("backup_type".toList, .str backupType)] "backup_type".toList =
      some backupType := fun _ _ => rfl
  simp only [readResponse, jsonObject_obj hp, hz, ht, Option.some.injEq]

end Receive

theorem vend_plain {house : HouseArrest} {bundleId backupType : Text} {afc : Afc}
    (h : vend house bundleId = .ok (afc, backupType)) : ∀ c ∈ backupType, Plain c := by
  have hb : backupType = "full".toList ∨ backupType = "documents".toList := by
    unfold vend at h
    split at h
    · cases h
    split at h
    · cases h
      exact .inl rfl
    split at h
    · cases h
    split at h
    · cases h
      exact .inr rfl
    · cases h
  obtain rfl | rfl := hb <;> decide

theorem tryBackup_answer (c : Crates) (fuel : Nat) (house : HouseArrest)
    (bundleId outputDir : Text) :
    Triple (fun _ => True) (tryBackup c fuel house bundleId outputDir)
      (fun json _ => ∃ afc backupType total, vend house bundleId = .ok (afc, backupType) ∧
        json = successResponse (zipPath bundleId outputDir) total backupType)
      (fun _ _ => True) := by
  unfold tryBackup
  cases hv : vend house bundleId with
  | error e => exact Triple.error fun _ _ => trivial
  | ok p =>
    obtain ⟨afc, backupType⟩ := p
    refine Triple.bind Triple.any fun _ => Triple.bind Triple.any fun h => ?_
    refine Triple.handle Triple.any (fun w => Triple.ok fun _ _ => ?_) fun halt => ?_
    · exact ⟨afc, backupType, w.total, rfl, rfl⟩
    · obtain ⟨stop, w⟩ := halt
      cases stop with
      | error e => exact Triple.bind Triple.any fun _ => Triple.error fun _ _ => trivial
      | running => exact Triple.error fun _ _ => trivial
      | panicked => exact Triple.error fun _ _ => trivial

theorem nul_zipPath {bundleId outputDir : Text} (hb : nul ∉ bundleId) (ho : nul ∉ outputDir) :
    nul ∉ zipPath bundleId outputDir := by
  have hz : nul ∉ ".zip".toList := by decide
  have hn : nul ∉ bundleId ++ ".zip".toList := by
    rw [List.mem_append, not_or]
    exact ⟨hb, hz⟩
  have hs : nul ≠ '/' := by decide
  unfold zipPath join
  split
  · exact hn
  split
  · rw [List.mem_append, not_or]
    exact ⟨ho, hn⟩
  · rw [List.mem_append, List.mem_cons, not_or, not_or]
    exact ⟨ho, hs, hn⟩

theorem backupApp_error (parseError : Text → Text) {c : Crates} {fuel : Nat} {house : HouseArrest}
    {bundleId outputDir e : Text} {d : Disk Text UInt8} (he : nul ∉ e)
    (h : ((tryBackup c fuel house (fromPtr bundleId) (fromPtr outputDir)).run d).1 =
      .error (.error e)) :
    ((RustIdevice.backupApp parseError c fuel house bundleId outputDir).run d).1 =
      .error (.error (if Clean e then e else parseError (errorResponse e))) := by
  rw [RustIdevice.backupApp, run_callBridge, h]
  simp only [received]
  rw [receive_error he]

theorem extractZip_error (parseError : Text → Text) {c : Crates} {zip outputDir e : Text}
    {d : Disk Text UInt8} (he : nul ∉ e)
    (h : ((tryExtract c (fromPtr zip) (fromPtr outputDir)).run d).1 = .error e) :
    ((extractZip parseError c zip outputDir).run d).1 =
      .error (.error (if Clean e then e else parseError (errorResponse e))) := by
  rw [run_extractZip, h]
  simp only [Except.mapError, received]
  rw [receive_error he]
  rfl

theorem backupApp_success (parseError : Text → Text) {c : Crates} {fuel : Nat}
    {house : HouseArrest} {bundleId outputDir json : Text} {d : Disk Text UInt8}
    (hb : nul ∉ bundleId) (ho : nul ∉ outputDir)
    (h : ((tryBackup c fuel house bundleId outputDir).run d).1 = .ok json) :
    ∃ afc backupType total, vend house bundleId = .ok (afc, backupType) ∧
      json = successResponse (zipPath bundleId outputDir) total backupType ∧
      ((RustIdevice.backupApp parseError c fuel house bundleId outputDir).run d).1 =
        if Clean (zipPath bundleId outputDir) then .ok json else .error (.error (parseError json)) := by
  obtain ⟨afc, backupType, total, hv, rfl⟩ :=
    (tryBackup_answer c fuel house bundleId outputDir).of_ok trivial h
  refine ⟨afc, backupType, total, hv, rfl, ?_⟩
  rw [RustIdevice.backupApp, run_callBridge, fromPtr_self hb, fromPtr_self ho, h]
  simp only [received]
  rw [receive_success total (nul_zipPath hb ho) (vend_plain hv)]

/-- Errors, answers and string literals come through exactly when they hold no
control character that `escape_json` leaves as it is. -/
theorem response_crosses_iff (F : Foundation) (hF : F.Documented) (c : Crates) :
    (∀ fuel house bundleId outputDir d e, nul ∉ e →
      ((tryBackup c fuel house (fromPtr bundleId) (fromPtr outputDir)).run d).1 =
        .error (.error e) →
      (((RustIdevice.backupApp F.parseError c fuel house bundleId outputDir).run d).1 =
        .error (.error e) ↔ Clean e)) ∧
    (∀ zip outputDir d e, nul ∉ e →
      ((tryExtract c (fromPtr zip) (fromPtr outputDir)).run d).1 = .error e →
      (((extractZip F.parseError c zip outputDir).run d).1 = .error (.error e) ↔ Clean e)) ∧
    (∀ fuel house bundleId outputDir d json, nul ∉ bundleId → nul ∉ outputDir →
      ((tryBackup c fuel house bundleId outputDir).run d).1 = .ok json →
      ((∃ answer afc backupType, vend house bundleId = .ok (afc, backupType) ∧
        ((RustIdevice.backupApp F.parseError c fuel house bundleId outputDir).run d).1 =
          .ok answer ∧
        readResponse F answer =
          .ok (zipPath bundleId outputDir, decide (backupType = "documents".toList))) ↔
        Clean (zipPath bundleId outputDir))) ∧
    (∀ s, nul ∉ s → (parse (quoted s) = some (.str s) ↔ Clean s)) := by
  have hiff : ∀ e, (Except.error (Stop.error (if Clean e then e else
      F.parseError (errorResponse e))) : Except Stop Text) = .error (.error e) ↔ Clean e := by
    intro e
    by_cases he : Clean e
    · simp [he]
    · have hne : F.parseError (errorResponse e) ≠ e :=
        fun h => he (h ▸ hF.parseError_clean _)
      simp [he, hne]
  refine ⟨fun fuel house bundleId outputDir d e he h => ?_, fun zip outputDir d e he h => ?_,
    fun fuel house bundleId outputDir d json hb ho h => ?_, fun s _ => ?_⟩
  · rw [backupApp_error _ he h]
    exact hiff e
  · rw [extractZip_error _ he h]
    simpa using hiff e
  · obtain ⟨afc, backupType, total, hv, rfl, hr⟩ :=
      backupApp_success F.parseError hb ho h
    rw [hr]
    constructor
    · rintro ⟨answer, _, _, _, ha, _⟩
      by_contra hz
      rw [if_neg hz] at ha
      cases ha
    · intro hz
      refine ⟨_, afc, backupType, hv, if_pos hz, ?_⟩
      exact readResponse_success F total hz (vend_plain hv)
  · rw [parse_quoted]
    by_cases hs : Clean s <;> simp [hs]

theorem response_crosses_plain :
    ((RustIdevice.backupApp foundation.parseError crates 1 (unreachable "refused".toList) [] []).run
      emptyDisk).1 = .error (.error "house_arrest connect: refused".toList) ∧
    ((extractZip foundation.parseError crates ['a'] ['o']).run emptyDisk).1 =
      .error (.error "open zip: No such file or directory (os error 2)".toList) ∧
    (∃ answer afc backupType, vend (vending emptyAfc) ['b'] = .ok (afc, backupType) ∧
      ((RustIdevice.backupApp foundation.parseError crates 2 (vending emptyAfc) ['b'] ['o']).run
        emptyDisk).1 = .ok answer ∧
      readResponse foundation answer =
        .ok (zipPath ['b'] ['o'], decide (backupType = "documents".toList))) ∧
    parse (quoted "a\"b\n".toList) = some (.str "a\"b\n".toList) := by
  obtain ⟨hb, he, hs, hq⟩ := response_crosses_iff foundation foundation_documented crates
  refine ⟨(hb 1 _ [] [] emptyDisk _ (by decide) rfl).mpr (by decide),
    (he ['a'] ['o'] emptyDisk _ (by decide) rfl).mpr (by decide),
    (hs 2 _ ['b'] ['o'] emptyDisk _ (by decide) (by decide) rfl).mpr (by decide),
    (hq _ (by decide)).mpr (by decide)⟩

/-- An error with a control character in it arrives as another one. -/
theorem control_character_garbled : ∃ e, nul ∉ e ∧
    ((tryBackup crates 1 (unreachable [Char.ofNat 1]) [] []).run emptyDisk).1 =
      .error (.error e) ∧
    ((RustIdevice.backupApp foundation.parseError crates 1 (unreachable [Char.ofNat 1]) [] []).run
      emptyDisk).1 ≠ .error (.error e) := by
  have hn : nul ∉ "house_arrest connect: ".toList ++ [Char.ofNat 1] := by decide
  have hc : ¬ Clean ("house_arrest connect: ".toList ++ [Char.ofNat 1]) := by decide
  have hr : ((tryBackup crates 1 (unreachable [Char.ofNat 1]) (fromPtr []) (fromPtr [])).run
      emptyDisk).1 = .error (.error ("house_arrest connect: ".toList ++ [Char.ofNat 1])) := rfl
  refine ⟨_, hn, hr, fun h => ?_⟩
  have hg := backupApp_error foundation.parseError hn hr
  rw [if_neg hc, h] at hg
  revert hg
  decide

end UnBoxer.Responses
