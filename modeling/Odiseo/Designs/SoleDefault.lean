import Odiseo.Designs.Service

/-!
# The default design

An index keeps a tenant from having two default designs. A delete may take the default and
leave the others without one: the pages are then printed by the base template. Nothing else
loses the default, as long as a request says by a boolean whether a design is the default
and does not create the first design as not the default.
-/

namespace Odiseo.Designs

open Database

/-- A design of the tenant. -/
def ofTenant (tenantId : Uuid) (d : PdfDesignTemplate) : Bool := d.tenantId = some tenantId

/-- A default design of the tenant. -/
def defaultOf (tenantId : Uuid) (d : PdfDesignTemplate) : Bool :=
  d.tenantId = some tenantId && d.isDefault

/-- A tenant with designs has exactly one default design. -/
def World.SoleDefault (w : World) (tenantId : Uuid) : Prop :=
  w.designsOf tenantId ≠ [] → w.defaultCount tenantId = 1

instance (w : World) (tenantId : Uuid) : Decidable (w.SoleDefault tenantId) :=
  inferInstanceAs (Decidable (_ → _))

/-- Every sequence of calls keeps exactly one default design. -/
def KeepsSoleDefault : Prop :=
  ∀ tenantId (w : World) calls, w.SoleDefault tenantId →
    (w.after tenantId calls).SoleDefault tenantId

/-- The call says by a boolean, by `null` or not at all whether a design is the default, and
does not create the first design with an explicit `isDefault: false`. -/
def SaysDefault (tenantId : Uuid) (w : World) : Call → Prop
  | .create dto _ => w.designsOf tenantId = [] → dto.isDefault ≠ some (some false)
  | .update _ dto => ∀ value, dto.isDefault = some value →
      value = .null ∨ ∃ isDefault, value = .boolean isDefault
  | .delete .. => True
  | .request _ => True

/-- The call is a delete that takes the default design while other designs remain. -/
def TakesDefault (tenantId : Uuid) (w : World) : Call → Prop
  | .delete id dropped => ∃ design w', w.findById id tenantId = .ok design ∧
      design.isDefault = true ∧ w.delete id tenantId dropped = .ok w' ∧
      w'.designsOf tenantId ≠ []
  | _ => False

/-- The call commits and makes a design the default: a create or an update that says so, or a
create that says nothing where the tenant has no design. -/
def MakesDefault (tenantId : Uuid) (w : World) : Call → Prop
  | .create dto id => (∃ w', w.create tenantId dto id = .ok w') ∧
      (dto.isDefault = some (some true) ∨ dto.isDefault.join = none ∧ w.designsOf tenantId = [])
  | .update id dto => (∃ w', w.update id tenantId dto = .ok w') ∧
      dto.isDefault = some (.boolean true)
  | _ => False

section Tables

variable {table : Table Uuid PdfDesignTemplate} {tenantId : Uuid}

/-- The default designs are the designs of the tenant that are default. -/
theorem filter_defaultOf (table : Table Uuid PdfDesignTemplate) (tenantId : Uuid) :
    (table.filter (ofTenant tenantId)).filter (·.isDefault) =
      table.filter (defaultOf tenantId) := by
  simp only [Table.filter, List.filter_filter]
  apply List.filter_congr
  intro d _
  simp only [defaultOf, ofTenant, Bool.and_comm]

/-- The number of default designs, as a selection of the table. -/
theorem defaultCount_eq (w : World) (tenantId : Uuid) :
    w.defaultCount tenantId = (w.designs.table.filter (defaultOf tenantId)).length := by
  rw [← filter_defaultOf]
  rfl

/-- Distinct elements that are all the same are at most one. -/
theorem length_le_one_of_nodup {α : Type} {xs : List α} (hnodup : xs.Nodup)
    (hsame : ∀ a ∈ xs, ∀ b ∈ xs, a = b) : xs.length ≤ 1 := by
  match xs with
  | [] => simp
  | [_] => simp
  | a :: b :: _ =>
    have hab := hsame a (by simp) b (by simp)
    simp [hab] at hnodup

/-- **The index** lets a tenant have at most one default design. -/
theorem defaultCount_le_one (w : World) (tenantId : Uuid) : w.defaultCount tenantId ≤ 1 := by
  rw [defaultCount_eq]
  apply length_le_one_of_nodup
  · exact (List.Nodup.of_map key w.designs.table.nodup).filter _
  · intro a ha b hb
    obtain ⟨ha, hadefault⟩ := List.mem_filter.mp ha
    obtain ⟨hb, hbdefault⟩ := List.mem_filter.mp hb
    simp only [defaultOf, Bool.and_eq_true, decide_eq_true_eq] at hadefault hbdefault
    have hid : a.id = b.id := by
      apply w.designs.unique a ha b hb
      simp [PdfDesignTemplate.conflicts, hadefault, hbdefault]
    exact Table.eq_of_key_eq ha hb hid

/-- A tenant with a default design at hand has exactly one. -/
theorem defaultCount_of_mem {w : World} {d : PdfDesignTemplate} (hd : d ∈ w.designs.table.rows)
    (hdefault : defaultOf tenantId d = true) : w.defaultCount tenantId = 1 := by
  have hle := defaultCount_le_one w tenantId
  have hpos : 0 < w.defaultCount tenantId := by
    rw [defaultCount_eq]
    exact List.length_pos_of_mem (List.mem_filter.mpr ⟨hd, hdefault⟩)
  omega

end Tables

section Steps

variable {tenantId : Uuid} {w w' : World}

/-- What a statement stores is the table it made. -/
theorem table_of_store {table : Table Uuid PdfDesignTemplate} {designs : DesignTable}
    (h : DesignTable.store table = .ok designs) : designs.table = table := by
  unfold DesignTable.store at h
  split at h
  · cases h
    rfl
  · cases h

/-- A new row is inserted under a free key, up to the values that its columns store. -/
theorem table_of_insert {table : Table Uuid PdfDesignTemplate} {design : PdfDesignTemplate}
    {designs : DesignTable} (h : World.insert table design = .ok designs) :
    table.find design.id = none ∧ ∃ columns,
      designs.table = table.insert { design with columns := columns } := by
  unfold World.insert at h
  split at h
  · cases h
  · rename_i columns _
    split at h
    · cases h
    · rename_i hfree
      exact ⟨by simpa using hfree, columns, table_of_store h⟩

/-- A saved entity replaces its row. -/
theorem table_of_save {table : Table Uuid PdfDesignTemplate} {design : PdfDesignTemplate}
    {columns : DesignColumns} {isDefault : Value} {designs : DesignTable}
    (h : World.save table design columns isDefault = .ok designs) :
    ∃ value stored, isDefault.toBoolean = some value ∧
      designs.table = table.modify design.id fun d =>
        { d with columns := stored, isDefault := value } := by
  unfold World.save at h
  split at h
  · rename_i value stored hvalue _
    exact ⟨value, stored, hvalue, table_of_store h⟩
  · cases h

/-- A design that is found is a design of the tenant. -/
theorem found_of_findById {id : Uuid} {design : PdfDesignTemplate}
    (h : w.findById id tenantId = .ok design) :
    w.designs.table.find id = some design ∧ design.id = id ∧
      design.tenantId = some tenantId := by
  unfold World.findById at h
  split at h
  · rename_i found hfind
    split at h
    · rename_i htenant
      cases h
      exact ⟨hfind, Table.key_of_find hfind, htenant⟩
    · cases h
  · cases h

/-- A design that is found is one of the designs of the tenant. -/
theorem mem_designsOf_of_findById {id : Uuid} {design : PdfDesignTemplate}
    (h : w.findById id tenantId = .ok design) : design ∈ w.designsOf tenantId := by
  obtain ⟨hfind, _, htenant⟩ := found_of_findById h
  exact List.mem_filter.mpr ⟨Table.mem_of_find hfind, by simpa using htenant⟩

/-- A default design that is found is the only one. -/
theorem defaultCount_of_findById {id : Uuid} {design : PdfDesignTemplate}
    (h : w.findById id tenantId = .ok design) (hdefault : design.isDefault = true) :
    w.defaultCount tenantId = 1 := by
  obtain ⟨hfind, _, htenant⟩ := found_of_findById h
  apply defaultCount_of_mem (Table.mem_of_find hfind)
  simp [defaultOf, htenant, hdefault]

/-- The new design is the default when the request says so, or when it says nothing and there
is no design yet. -/
def shouldBeDefault (w : World) (tenantId : Uuid) (dto : CreatePdfDesignDto) : Bool :=
  dto.isDefault.join.getD (decide ((w.designsOf tenantId).length = 0))

/-- What `create` does when it commits. -/
theorem create_ok {dto : CreatePdfDesignDto} {id : Uuid}
    (h : w.create tenantId dto id = .ok w') :
    ∃ designs,
      World.insert (if shouldBeDefault w tenantId dto then w.unsetCurrentDefault tenantId
          else w.designs.table)
        ⟨id, some tenantId, dto.created, shouldBeDefault w tenantId dto⟩ = .ok designs ∧
      w' = { w with designs := designs } := by
  simp only [World.create, bind, Except.bind] at h
  split at h
  · cases h
  · rename_i designs hinsert
    cases h
    exact ⟨designs, hinsert, rfl⟩

/-- **`create`** of a default design: the others are unset before. -/
theorem defaultCount_create {dto : CreatePdfDesignDto} {id : Uuid}
    (hcreate : w.create tenantId dto id = .ok w')
    (hshould : shouldBeDefault w tenantId dto = true) :
    w'.defaultCount tenantId = 1 := by
  obtain ⟨designs, hinsert, rfl⟩ := create_ok hcreate
  obtain ⟨hfree, columns, htable⟩ := table_of_insert hinsert
  rw [hshould, if_pos rfl] at hfree htable
  have hnew : ⟨id, some tenantId, columns, true⟩ ∈ designs.table.rows := by
    rw [htable]
    have hfound := Table.find_insert (w.unsetCurrentDefault tenantId)
      ⟨id, some tenantId, columns, true⟩ id hfree
    exact Table.mem_of_find (hfound.trans (if_pos rfl))
  exact defaultCount_of_mem hnew (by simp [defaultOf])

/-- **`create`** of another design keeps the number of defaults. -/
theorem defaultCount_create_other {dto : CreatePdfDesignDto} {id : Uuid}
    (hcreate : w.create tenantId dto id = .ok w')
    (hshould : shouldBeDefault w tenantId dto = false) :
    w'.defaultCount tenantId = w.defaultCount tenantId := by
  obtain ⟨designs, hinsert, rfl⟩ := create_ok hcreate
  obtain ⟨_, columns, htable⟩ := table_of_insert hinsert
  rw [hshould, if_neg Bool.false_ne_true] at htable
  rw [defaultCount_eq, defaultCount_eq]
  simp only [htable]
  rw [Table.filter_insert_of_not _ _ _ (by simp [defaultOf])]

/-- A new design that is not the default is made so explicitly, or is not the first one. -/
theorem not_shouldBeDefault {dto : CreatePdfDesignDto}
    (h : shouldBeDefault w tenantId dto = false) :
    dto.isDefault = some (some false) ∨ w.designsOf tenantId ≠ [] := by
  unfold shouldBeDefault at h
  rcases hdto : dto.isDefault with _ | _ | value
  · right
    simpa [hdto] using h
  · right
    simpa [hdto] using h
  · left
    have hvalue : value = false := by simpa [hdto] using h
    rw [hvalue]

/-- What `update` does when it commits. -/
theorem update_ok {dto : PartialPdfDesignDto} {id : Uuid}
    (h : w.update id tenantId dto = .ok w') :
    ∃ design designs, w.findById id tenantId = .ok design ∧
      ¬(dto.isDefault = some (.boolean false) ∧ design.isDefault ∧
        w.defaultCount tenantId ≤ 1) ∧
      World.save (if dto.isDefault.any Value.truthy ∧ design.isDefault = false
          then w.unsetCurrentDefault tenantId else w.designs.table) design
        (dto.assigned design.columns) (dto.isDefault.getD (.boolean design.isDefault)) =
          .ok designs ∧
      w' = { w with designs := designs } := by
  simp only [World.update, bind, Except.bind] at h
  split at h
  · cases h
  · rename_i design hfound
    by_cases hsole : dto.isDefault = some (.boolean false) ∧ design.isDefault = true ∧
        w.defaultCount tenantId ≤ 1
    · rw [if_pos hsole] at h
      cases h
    · rw [if_neg hsole] at h
      simp only [pure, Except.pure] at h
      split at h
      · cases h
      · rename_i designs hsave
        cases h
        exact ⟨design, designs, hfound, hsole, hsave, rfl⟩

/-- Writing the row of a design without changing whether it is the default. -/
theorem defaultCount_rewrite {designs : DesignTable} {id : Uuid} {design : PdfDesignTemplate}
    {columns : DesignColumns} (hfound : w.findById id tenantId = .ok design)
    (htable : designs.table = w.designs.table.modify design.id fun d =>
      { d with columns := columns, isDefault := design.isDefault }) :
    World.defaultCount { w with designs := designs } tenantId = w.defaultCount tenantId := by
  obtain ⟨hfind, hid, _⟩ := found_of_findById hfound
  rw [defaultCount_eq, defaultCount_eq]
  simp only [htable]
  rw [Table.filter_modify_of_find, List.length_map]
  intro r hr
  rw [hid, hfind] at hr
  cases hr
  rfl

/-- **`update`** that says by a boolean whether the design is the default makes it the default,
or keeps the number of defaults. -/
theorem defaultCount_update {dto : PartialPdfDesignDto} {id : Uuid}
    (hsaid : SaysDefault tenantId w (.update id dto))
    (hupdate : w.update id tenantId dto = .ok w') :
    w'.defaultCount tenantId =
      if dto.isDefault = some (.boolean true) then 1 else w.defaultCount tenantId := by
  obtain ⟨design, designs, hfound, hkept, hsave, rfl⟩ := update_ok hupdate
  obtain ⟨value, columns, hvalue, htable⟩ := table_of_save hsave
  obtain ⟨hfind, _, htenant⟩ := found_of_findById hfound
  have hmem := Table.mem_of_find hfind
  by_cases htrue : dto.isDefault = some (.boolean true)
  · -- the design is saved as the default, the others having been unset
    rw [if_pos htrue]
    rw [htrue] at hvalue
    obtain rfl : true = value := by simpa [Value.toBoolean] using hvalue
    have hsaved : { design with columns := columns, isDefault := true } ∈ designs.table.rows := by
      rw [htable]
      apply List.mem_map.mpr
      refine ⟨design, ?_, if_pos rfl⟩
      split
      · rename_i hunset
        have hsame : World.unset tenantId design = design := by simp [World.unset, hunset.2]
        exact List.mem_map.mpr ⟨design, hmem, hsame⟩
      · exact hmem
    exact defaultCount_of_mem hsaved (by simp [defaultOf, htenant])
  · rw [if_neg htrue]
    have hsame : value = design.isDefault ∧ dto.isDefault.any Value.truthy = false := by
      cases hdto : dto.isDefault with
      | none =>
        rw [hdto] at hvalue
        have hkeeps : (design.isDefault == true) = value := by
          simpa [Value.toBoolean] using hvalue
        exact ⟨by simpa using hkeeps.symm, rfl⟩
      | some said =>
        rw [hdto] at hvalue htrue hkept
        rcases hsaid said hdto with rfl | ⟨isDefault, rfl⟩
        · cases hvalue
        · cases isDefault with
          | true => exact absurd rfl htrue
          | false =>
            obtain rfl : false = value := by simpa [Value.toBoolean] using hvalue
            have hnot : design.isDefault = false := by
              by_contra hdefault
              exact hkept ⟨rfl, by simpa using hdefault, defaultCount_le_one w tenantId⟩
            exact ⟨hnot.symm, rfl⟩
    obtain ⟨rfl, hquiet⟩ := hsame
    rw [if_neg (by simp [hquiet])] at htable
    exact defaultCount_rewrite hfound htable

/-- What `delete` does when it commits. -/
theorem delete_ok {id : Uuid} {dropped : AssetKey → Bool}
    (h : w.delete id tenantId dropped = .ok w') :
    ∃ design, w.findById id tenantId = .ok design ∧
      w'.designs = w.designs.remove design := by
  simp only [World.delete, bind, Except.bind] at h
  split at h
  · cases h
  · rename_i design hfound
    split at h
    · cases h
    · cases h
      exact ⟨design, hfound, rfl⟩

/-- **`delete`** removes the default, or keeps the number of defaults. -/
theorem defaultCount_delete {id : Uuid} {design : PdfDesignTemplate}
    (hfound : w.findById id tenantId = .ok design)
    (hdesigns : w'.designs = w.designs.remove design) :
    w'.defaultCount tenantId = if design.isDefault then 0 else w.defaultCount tenantId := by
  obtain ⟨hfind, _, htenant⟩ := found_of_findById hfound
  have hmem := Table.mem_of_find hfind
  have hrows : w'.designs.table.filter (defaultOf tenantId) =
      (w.designs.table.filter (defaultOf tenantId)).filter
        fun d => !decide (d.id = design.id) := by
    rw [hdesigns]
    simp only [DesignTable.remove, Table.delete, Table.filter, List.filter_filter]
    apply List.filter_congr
    intro d _
    exact Bool.and_comm _ _
  rw [defaultCount_eq, hrows]
  cases hdefault : design.isDefault with
  | false =>
    have hkept : ∀ d ∈ w.designs.table.filter (defaultOf tenantId), d.id ≠ design.id := by
      intro d hd hid
      obtain ⟨hd, hdefaultOf⟩ := List.mem_filter.mp hd
      rw [Table.eq_of_key_eq hd hmem hid] at hdefaultOf
      simp [defaultOf, hdefault] at hdefaultOf
    rw [List.filter_eq_self.mpr (by simpa using hkept), ← defaultCount_eq]
    rfl
  | true =>
    have hone := defaultCount_of_findById hfound hdefault
    rw [defaultCount_eq] at hone
    obtain ⟨only, honly⟩ := List.length_eq_one_iff.mp hone
    have hmemDefault : design ∈ w.designs.table.filter (defaultOf tenantId) :=
      List.mem_filter.mpr ⟨hmem, by simp [defaultOf, htenant, hdefault]⟩
    rw [honly, List.mem_singleton] at hmemDefault
    simp [honly, hmemDefault]

/-- **Step lemma:** a call that says by a boolean what is the default makes a design the
default, keeps the number of defaults of a tenant with designs, or is a delete that takes the
default design or the last one. -/
theorem defaultCount_perform (c : Call) (hsaid : SaysDefault tenantId w c) :
    (w.perform tenantId c).defaultCount tenantId = 1 ∨
    ((w.perform tenantId c).defaultCount tenantId = w.defaultCount tenantId ∧
      ((w.perform tenantId c).designsOf tenantId ≠ [] → w.designsOf tenantId ≠ [])) ∨
    TakesDefault tenantId w c ∧ (w.perform tenantId c).defaultCount tenantId = 0 ∨
    (w.perform tenantId c).designsOf tenantId = [] := by
  unfold World.perform
  cases hcall : w.call tenantId c with
  | error e => exact .inr (.inl ⟨rfl, id⟩)
  | ok w' =>
    cases c with
    | create dto id =>
      cases hshould : shouldBeDefault w tenantId dto with
      | true => exact .inl (defaultCount_create hcall hshould)
      | false =>
        refine .inr (.inl ⟨defaultCount_create_other hcall hshould, fun _ hnone => ?_⟩)
        rcases not_shouldBeDefault hshould with hexplicit | hothers
        · exact hsaid hnone hexplicit
        · exact hothers hnone
    | update id dto =>
      have hcount := defaultCount_update hsaid hcall
      obtain ⟨design, _, hfound, _⟩ := update_ok hcall
      split at hcount
      · exact .inl hcount
      · refine .inr (.inl ⟨hcount, fun _ => ?_⟩)
        exact List.ne_nil_of_mem (mem_designsOf_of_findById hfound)
    | delete id dropped =>
      obtain ⟨design, hfound, hdesigns⟩ := delete_ok hcall
      have hcount := defaultCount_delete hfound hdesigns
      by_cases hleft : w'.designsOf tenantId = []
      · exact .inr (.inr (.inr hleft))
      · split at hcount
        · rename_i hdefault
          exact .inr (.inr (.inl ⟨⟨design, w', hfound, hdefault, hcall, hleft⟩, hcount⟩))
        · refine .inr (.inl ⟨hcount, fun _ => ?_⟩)
          exact List.ne_nil_of_mem (mem_designsOf_of_findById hfound)
    | request ids =>
      cases hcall
      exact .inr (.inl ⟨rfl, id⟩)

/-- A call that makes a design the default leaves exactly one. -/
theorem defaultCount_of_makesDefault {c : Call} (h : MakesDefault tenantId w c) :
    (w.perform tenantId c).defaultCount tenantId = 1 := by
  cases c with
  | create dto id =>
    obtain ⟨⟨w', hcreate⟩, hsaid⟩ := h
    have hshould : shouldBeDefault w tenantId dto = true := by
      rcases hsaid with htrue | ⟨hnone, hfirst⟩
      · simp [shouldBeDefault, htrue]
      · simp [shouldBeDefault, hnone, hfirst]
    simp only [World.perform, World.call, hcreate]
    exact defaultCount_create hcreate hshould
  | update id dto =>
    obtain ⟨⟨w', hupdate⟩, htrue⟩ := h
    have hsaid : SaysDefault tenantId w (.update id dto) := by
      intro value hvalue
      rw [htrue] at hvalue
      cases hvalue
      exact .inr ⟨true, rfl⟩
    simp only [World.perform, World.call, hupdate]
    rw [defaultCount_update hsaid hupdate, if_pos htrue]
  | delete id dropped => exact h.elim
  | request ids => exact h.elim

end Steps

/-- The state after one call more. -/
theorem after_take_succ (tenantId : Uuid) (w : World) {calls : List Call} {n : ℕ} {c : Call}
    (hc : calls[n]? = some c) :
    w.after tenantId (calls.take (n + 1)) =
      (w.after tenantId (calls.take n)).perform tenantId c := by
  rw [List.take_add_one, hc]
  simp [World.after]

/-- Before the `n`-th state of the sequence a delete has taken the default design, and the
tenant has had none since. -/
def TakenBefore (tenantId : Uuid) (w : World) (calls : List Call) (n : ℕ) : Prop :=
  ∃ m c, m < n ∧ calls[m]? = some c ∧ TakesDefault tenantId (w.after tenantId (calls.take m)) c ∧
    ∀ k, m < k → k ≤ n → (w.after tenantId (calls.take k)).defaultCount tenantId = 0

/-- No default after the next call either. -/
theorem TakenBefore.succ {tenantId : Uuid} {w : World} {calls : List Call} {n : ℕ}
    (h : TakenBefore tenantId w calls n)
    (hnone : (w.after tenantId (calls.take (n + 1))).defaultCount tenantId = 0) :
    TakenBefore tenantId w calls (n + 1) := by
  obtain ⟨m, c, hm, hc, htakes, hall⟩ := h
  refine ⟨m, c, by omega, hc, htakes, fun k hk hle => ?_⟩
  by_cases hlast : k = n + 1
  · rw [hlast]
    exact hnone
  · exact hall k hk (by omega)

/-- **Run lemma:** a tenant with designs has exactly one default, or a delete has taken it. -/
theorem defaultCount_after (tenantId : Uuid) (w : World) (calls : List Call)
    (hstart : w.SoleDefault tenantId)
    (hsaid : ∀ n c, calls[n]? = some c →
      SaysDefault tenantId (w.after tenantId (calls.take n)) c) (n : ℕ)
    (hdesigns : (w.after tenantId (calls.take n)).designsOf tenantId ≠ []) :
    (w.after tenantId (calls.take n)).defaultCount tenantId = 1 ∨
      TakenBefore tenantId w calls n := by
  induction n with
  | zero => exact .inl (hstart hdesigns)
  | succ n ih =>
    cases hc : calls[n]? with
    | none =>
      -- the sequence has come to its end
      have hshort := List.getElem?_eq_none_iff.mp hc
      have hsame : calls.take (n + 1) = calls.take n := by
        rw [List.take_of_length_le (by omega), List.take_of_length_le hshort]
      rw [hsame] at hdesigns ⊢
      rcases ih hdesigns with hone | htaken
      · exact .inl hone
      · obtain ⟨m, c, hm, hget, htakes, hall⟩ := htaken
        refine .inr (TakenBefore.succ ⟨m, c, hm, hget, htakes, hall⟩ ?_)
        rw [hsame]
        exact hall n hm (Nat.le_refl n)
    | some c =>
      have hnext := after_take_succ tenantId w hc
      rw [hnext] at hdesigns ⊢
      rcases defaultCount_perform c (hsaid n c hc) with hone | ⟨hkept, hbefore⟩ |
        ⟨htakes, hzero⟩ | hnone
      · exact .inl hone
      · rcases ih (hbefore hdesigns) with hone | htaken
        · exact .inl (hkept.trans hone)
        · have hzero : (w.after tenantId (calls.take n)).defaultCount tenantId = 0 := by
            obtain ⟨m, _, hm, _, _, hall⟩ := htaken
            exact hall n hm (Nat.le_refl n)
          exact .inr (htaken.succ (by rw [hnext, hkept, hzero]))
      · refine .inr ⟨n, c, Nat.lt_succ_self n, hc, htakes, fun k hk hle => ?_⟩
        obtain rfl : k = n + 1 := by omega
        rw [hnext]
        exact hzero
      · exact absurd hnone hdesigns

/-- **The default design.** From a state with exactly one default design, in every state of a
sequence of calls that say by a boolean what is the default, a tenant has at most one default
design; if it has designs, exactly one of them is the default, unless a delete has taken the
default design and none has been the default since; and a call that makes a design the default
leaves exactly one. -/
theorem soleDefault_unless_taken (tenantId : Uuid) (w : World) (calls : List Call)
    (hstart : w.SoleDefault tenantId)
    (hsaid : ∀ n c, calls[n]? = some c →
      SaysDefault tenantId (w.after tenantId (calls.take n)) c) :
    (∀ n, (w.after tenantId (calls.take n)).defaultCount tenantId ≤ 1) ∧
      (∀ n, (w.after tenantId (calls.take n)).designsOf tenantId ≠ [] →
        (w.after tenantId (calls.take n)).defaultCount tenantId = 1 ∨
          TakenBefore tenantId w calls n) ∧
      ∀ n c, calls[n]? = some c → MakesDefault tenantId (w.after tenantId (calls.take n)) c →
        (w.after tenantId (calls.take (n + 1))).defaultCount tenantId = 1 := by
  refine ⟨fun n => defaultCount_le_one _ tenantId, ?_, ?_⟩
  · exact defaultCount_after tenantId w calls hstart hsaid
  · intro n c hc hmakes
    rw [after_take_succ tenantId w hc]
    exact defaultCount_of_makesDefault hmakes

/-- A tenant without designs. -/
def newTenant : World where
  designs := ⟨.empty, fun _ ha => nomatch ha⟩
  materialRequests := []
  objects := []

/-- A request that only names a design. -/
def named (name : String) : CreatePdfDesignDto where
  columns := fun c => if c = .name then some (.text name) else none
  isDefault := none

/-- Two designs are created, the first one, which is the default, is deleted, and the other one
is made the default. -/
def defaultDeleted : List Call :=
  [.create (named "A") 1, .create (named "B") 2, .delete 1 fun _ => true,
    .update 2 ⟨fun _ => none, some (.boolean true)⟩]

/-- Deleting the default design leaves the tenant with a design and without a default. -/
theorem not_keepsSoleDefault : ¬KeepsSoleDefault := by
  intro h
  have hbad := h 7 newTenant (defaultDeleted.take 3) (by decide)
  revert hbad
  decide

/-- The tenant has no default until the other design is made the default. -/
theorem soleDefault_unless_taken_deleted :
    (∀ n, (newTenant.after 7 (defaultDeleted.take n)).defaultCount 7 ≤ 1) ∧
      (∀ n, (newTenant.after 7 (defaultDeleted.take n)).designsOf 7 ≠ [] →
        (newTenant.after 7 (defaultDeleted.take n)).defaultCount 7 = 1 ∨
          TakenBefore 7 newTenant defaultDeleted n) ∧
      ∀ n c, defaultDeleted[n]? = some c →
        MakesDefault 7 (newTenant.after 7 (defaultDeleted.take n)) c →
        (newTenant.after 7 (defaultDeleted.take (n + 1))).defaultCount 7 = 1 := by
  refine soleDefault_unless_taken 7 newTenant defaultDeleted (by decide) fun n c hc => ?_
  match n with
  | 0 =>
    cases hc
    intro _ hsaid
    cases hsaid
  | 1 =>
    cases hc
    intro _ hsaid
    cases hsaid
  | 2 =>
    cases hc
    trivial
  | 3 =>
    cases hc
    intro value hvalue
    cases hvalue
    exact .inr ⟨true, rfl⟩
  | n + 4 => cases hc

/-- An update that is not validated can leave no default as well: it stores `0` as `false`. -/
example : ((newTenant.after 7 [.create (named "A") 1,
    .update 1 ⟨fun _ => none, some (.number 0)⟩]).defaultCount 7) = 0 := by decide

end Odiseo.Designs
