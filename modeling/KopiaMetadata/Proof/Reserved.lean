import KopiaMetadata.Api
import KopiaMetadata.Proof.Frame

/-!
# Reserved names

`format` and `repo` are reserved: `Put`, `GetMetadata` and `Remove` refuse them through
`checkReservedName`, and `MultiGet`, `ListContents` and `RemoveMany` inherit the check from the
single-item methods their goroutines call. `PutJSON` and `GetJSON` go straight to
`writeEncryptedBlock` and `readEncryptedBlock` and check nothing, so the guarantee holds of every
run whose JSON calls name no reserved item, and of no other.
-/

namespace KopiaMetadata

/-- **The reserved-name check.** `checkReservedName` lets through every name but `format` and
`repo`, and refuses those two with a message that names the item. -/
theorem checkReservedName_spec (itemID : String) :
    (checkReservedName itemID = .ok () ↔ itemID ≠ "format" ∧ itemID ≠ "repo") ∧
    (itemID = "format" ∨ itemID = "repo" →
      checkReservedName itemID
        = .error (.message ("invalid metadata item name: '" ++ itemID ++ "'"))) := by
  by_cases hres : isReservedName itemID = true
  · refine ⟨?_, fun _ => checkReservedName_of_reserved hres⟩
    rw [checkReservedName_of_reserved hres]
    rcases (isReservedName_iff itemID).mp hres with rfl | rfl <;> simp
  · have hnot : ¬ (itemID = "format" ∨ itemID = "repo") := fun h =>
      hres ((isReservedName_iff itemID).mpr h)
    rw [checkReservedName_of_not_reserved (by simpa using hres)]
    exact ⟨iff_of_true rfl (not_or.mp hnot), fun h => absurd h hnot⟩

/-- `PutJSON` or `GetJSON` on a reserved name: the calls that skip the check. -/
def Call.jsonReserved : Call → Bool
  | .putJSON id _ => isReservedName id
  | .getJSON id => isReservedName id
  | _ => false

/-- What the reserved-name check promises of one call and its reply: a single-item method given a
reserved name fails with the invalid-name error; a bulk method given one fails, with the
invalid-name error of one of its IDs when all of them are reserved (otherwise the error another ID
gives can be the one returned); and no map a bulk read returns has an entry for a reserved name. -/
def Guarded : Call → Reply → Prop
  | .put itemID _, reply | .remove itemID, reply => isReservedName itemID = true →
      reply = .unit (.error (.error (.message ("invalid metadata item name: '" ++ itemID ++ "'"))))
  | .getMetadata itemID, reply => isReservedName itemID = true →
      reply = .bytes (.error (.error (.message ("invalid metadata item name: '" ++ itemID ++ "'"))))
  | .multiGet itemIDs, reply =>
      ((∃ itemID ∈ itemIDs, isReservedName itemID = true) → ∀ m, reply ≠ .items (.ok m)) ∧
      ((∀ itemID ∈ itemIDs, isReservedName itemID = true) → ∀ f, reply = .items (.error f) →
        ∃ itemID ∈ itemIDs,
          f = .error (.message ("invalid metadata item name: '" ++ itemID ++ "'"))) ∧
      ∀ m, reply = .items (.ok m) → ∀ key, isReservedName key = true → m key = none
  | .listContents _, reply =>
      ∀ m, reply = .items (.ok m) → ∀ key, isReservedName key = true → m key = none
  | .removeMany itemIDs, reply =>
      ((∃ itemID ∈ itemIDs, isReservedName itemID = true) → reply ≠ .unit (.ok ())) ∧
      ((∀ itemID ∈ itemIDs, isReservedName itemID = true) → ∀ f, reply = .unit (.error f) →
        ∃ itemID ∈ itemIDs,
          f = .error (.message ("invalid metadata item name: '" ++ itemID ++ "'")))
  | .putJSON _ _, _ | .getJSON _, _ | .list _, _ | .refreshCache, _ => True

/-- The cache keeps every block under a reserved name. -/
def KeepsReserved (c c' : Cache) : Prop :=
  ∀ key, isReservedName key = true → c'.blocks.lookup key = c.blocks.lookup key

section

variable {mm : Manager} {c : Cache}

theorem keepsReserved_settle {r : GoResult Cache}
    (h : ∀ c', r = .ok c' → KeepsReserved c c') : KeepsReserved c (settle c r).1 := by
  cases r with
  | ok c' => exact h c' rfl
  | error f => exact fun _ _ => rfl

theorem ne_of_reserved {key itemID : String} (hkey : isReservedName key = true)
    (hid : isReservedName itemID = false) : key ≠ itemID := by
  rintro rfl
  simp [hkey] at hid

/-- A bulk read never maps a reserved name: the single reads it is made of refuse them. -/
theorem multiGet_no_reserved_entry {itemIDs : List String} {r : GoResult (String → Option Bytes)}
    (h : MultiGet.Returns (mm.getMetadata c) itemIDs parallelFetches r) :
    ∀ m, Reply.items r = .items (.ok m) → ∀ key, isReservedName key = true → m key = none := by
  intro m hm key hkey
  cases hv : m key with
  | none => rfl
  | some v =>
    have := h.entry (Reply.items.inj hm) hv
    simp [Manager.getMetadata_of_reserved hkey] at this

/-- **One call.** Unless it is a JSON call on a reserved name, a call keeps every reserved block
and keeps the promise of the reserved-name check. -/
theorem Serves.guarded {call : Call} {out : Cache × Reply} (h : Serves mm c call out)
    (hjson : call.jsonReserved = false) : KeepsReserved c out.1 ∧ Guarded call out.2 := by
  cases h with
  | put itemID content rnd =>
    cases hres : isReservedName itemID
    · refine ⟨keepsReserved_settle fun c' hput key hkey => ?_, fun h => absurd h (by simp [hres])⟩
      exact Manager.lookup_writeEncryptedBlock_ne (Manager.put_eq_ok hput).2
        (ne_of_reserved hkey hres)
    · simp only [Manager.put_of_reserved hres, settle]
      exact ⟨fun _ _ => rfl, fun _ => rfl⟩
  | putJSON id marshalled rnd =>
    have hres : isReservedName id = false := hjson
    refine ⟨keepsReserved_settle fun c' hput key hkey => ?_, trivial⟩
    cases marshalled with
    | error e => simp [Manager.putJSON, bind, Except.bind] at hput
    | ok j =>
      exact Manager.lookup_writeEncryptedBlock_ne (Manager.putJSON_eq_ok rfl hput)
        (ne_of_reserved hkey hres)
  | getMetadata itemID =>
    exact ⟨fun _ _ => rfl, fun hres => by rw [Manager.getMetadata_of_reserved hres]⟩
  | getJSON itemID => exact ⟨fun _ _ => rfl, trivial⟩
  | multiGet itemIDs r hr =>
    refine ⟨fun _ _ => rfl, fun ⟨itemID, hmem, hres⟩ m hm => ?_, fun hall f hf => ?_,
      multiGet_no_reserved_entry hr⟩
    · exact hr.not_ok hmem (Manager.getMetadata_of_reserved hres) m (Reply.items.inj hm)
    · obtain ⟨itemID, hmem, hfetch⟩ := hr.error (Reply.items.inj hf)
      rw [Manager.getMetadata_of_reserved (hall itemID hmem)] at hfetch
      exact ⟨itemID, hmem, (Except.error.inj hfetch).symm⟩
  | listContents namePrefix itemIDs r hlist hr =>
    exact ⟨fun _ _ => rfl, multiGet_no_reserved_entry hr⟩
  | listContentsError namePrefix e hlist => exact ⟨fun _ _ => rfl, fun m hm => by cases hm⟩
  | list namePrefix => exact ⟨fun _ _ => rfl, trivial⟩
  | refreshCache => exact ⟨fun _ _ => rfl, trivial⟩
  | remove itemID =>
    cases hres : isReservedName itemID
    · refine ⟨keepsReserved_settle fun c' hremove key hkey => ?_,
        fun h => absurd h (by simp [hres])⟩
      rw [RemoveMany.remove_eq_ok (liftError_eq_ok.mp hremove), Cache.lookup_erase,
        if_neg (ne_of_reserved hkey hres)]
    · simp only [Manager.remove_of_reserved hres, liftError_error, settle]
      exact ⟨fun _ _ => rfl, fun _ => rfl⟩
  | removeMany itemIDs c' r hr =>
    have hrefused : ∀ key, isReservedName key = true →
        RemoveMany.errorOf (Manager.remove c key) ≠ none := fun key hkey => by
      simp [Manager.remove_of_reserved hkey, RemoveMany.errorOf]
    refine ⟨fun key hkey => hr.lookup (hrefused key hkey), fun ⟨itemID, hmem, hres⟩ hok =>
      hr.not_ok hmem (hrefused itemID hres) (Reply.unit.inj hok), fun hall f hf => ?_⟩
    obtain ⟨itemID, hmem, e, he, rfl⟩ := hr.error (Reply.unit.inj hf)
    rw [Manager.remove_of_reserved (hall itemID hmem)] at he
    exact ⟨itemID, hmem, congrArg Fault.error (Option.some.inj he).symm⟩

end

/-- A cache whose `repo` block holds `[1]`. -/
def repoCache : Cache :=
  ⟨(∅ : AList fun _ : String => Bytes).insert "repo" [1], fun _ => none, ["repo"]⟩

end KopiaMetadata
