import Mathlib.Data.List.Induction
import Stakit.SchemaDiff
import Stakit.SchemaParser

set_option autoImplicit false

namespace Stakit.SchemaNames
open SchemaModel SchemaAttributes SchemaParser SchemaDiff ExceptLoops List

def lastOf (key : String) (metas : List Meta) : Option Meta :=
  metas.reverse.find? fun m => m.isIdent key

def textOf : Meta → Option String
  | .text _ value => some value
  | _ => none

def entriesOf : Meta → List Meta
  | .list _ items => items
  | _ => []

def declaredTable (input : DeriveInput) : Option String :=
  (lastOf "name" (metasOf "table" input.attrs)).bind textOf

def declaredRole (input : DeriveInput) : Option String :=
  (lastOf "name" (metasOf "role" input.attrs)).bind textOf

def declaredColumn (field : Field) : String :=
  ((lastOf "name" (metasOf "column" field.attrs)).bind textOf).getD field.ident

/-- The paths that head the policies of a table. -/
def policyHeads (m : Meta) : List (List String) :=
  if m.isIdent "policy" then (entriesOf m).map Meta.key else []

def declaredPolicies (input : DeriveInput) : List (List String) :=
  (metasOf "table" input.attrs).flatMap policyHeads

def entryHead (entry : Meta) : List (List String) :=
  if entry.isIdent "method" || entry.isIdent "predicate" then [] else [entry.key]

def indexHeads (m : Meta) : List (List String) :=
  if m.isIdent "index" || m.isIdent "unique_index" then (entriesOf m).flatMap entryHead else []

def declaredIndexes (input : DeriveInput) : List (List String) :=
  (metasOf "table" input.attrs).flatMap indexHeads

def fieldsOf (input : DeriveInput) : List Field :=
  match input.data with
  | .named fields => columnFields fields
  | _ => []

/-- The path of a foreign key that is written as one. -/
def pathReference (field : Field) : Option (List String) :=
  match lastOf "references" (metasOf "column" field.attrs) with
  | some (.path _ segments) => some segments
  | _ => none

def tableNamed (inputs : List DeriveInput) (ident : String) : Option DeriveInput :=
  (tableInputs inputs).reverse.find? fun input => input.ident = ident

variable (m : Meta) (key : String) {α β : Type} (items : List α) (inputs : List DeriveInput)
  {names : TableOfIdent} (input : DeriveInput)

theorem lastOf_some {metas : List Meta} {m : Meta} (h : lastOf key metas = some m) :
    m ∈ metas ∧ m.isIdent key = true := by
  have hkey := List.find?_some h
  exact ⟨mem_reverse.mp (mem_of_find?_eq_some h), hkey⟩

theorem foldl_last (key : String) (value : Meta → β) (metas : List Meta) (start : β) :
    metas.foldl (fun found m => if m.isIdent key then value m else found) start =
      ((lastOf key metas).map value).getD start := by
  induction metas using List.reverseRecOn with
  | nil => rfl
  | append_singleton metas m ih =>
    rw [foldl_append, foldl_cons, foldl_nil, lastOf, reverse_append]
    by_cases h : m.isIdent key = true
    · simp [h]
    · simp only [h, Bool.false_eq_true, if_false, reverse_singleton, singleton_append,
        List.find?_cons]
      exact ih

theorem foldl_gather (gather : α → List β) (start : List β) :
    items.foldl (fun found item => found ++ gather item) start = start ++ items.flatMap gather := by
  induction items generalizing start with
  | nil => simp
  | cons item rest ih => rw [foldl_cons, ih, flatMap_cons, append_assoc]

theorem isIdent_eq (name : String) : m.isIdent name = true ↔ m.key = [name] := by
  simp [Meta.isIdent]

theorem litStr_eq_ok (value : String) : litStr m = .ok value ↔ textOf m = some value := by
  cases m <;> simp [litStr, textOf]

theorem nested_eq_ok {items : List Meta} (h : nested m = .ok items) : entriesOf m = items := by
  cases m <;> simp_all [nested, entriesOf]

theorem indexStep_name {state result : IndexRead} {entry : Meta}
    (h : indexStep state entry = .ok result) :
    result.name.toList.map (fun name => [name]) =
      state.name.toList.map (fun name => [name]) ++ entryHead entry := by
  unfold indexStep at h
  by_cases hmethod : entry.isIdent "method" = true
  · rw [if_pos hmethod] at h
    obtain ⟨value, _, hresult⟩ := (bind_eq_ok _ _ _).mp h
    cases hresult
    simp [entryHead, hmethod]
  · rw [if_neg hmethod] at h
    by_cases hpredicate : entry.isIdent "predicate" = true
    · rw [if_pos hpredicate] at h
      obtain ⟨value, _, hresult⟩ := (bind_eq_ok _ _ _).mp h
      cases hresult
      simp [entryHead, hpredicate]
    · rw [if_neg hpredicate] at h
      obtain ⟨hnone, hrest⟩ := (then_eq_ok _ _ _).mp h
      rw [reject_eq_ok] at hnone
      have hname : state.name = none := by simpa using hnone
      split at hrest
      · rename_i name hkey
        obtain ⟨columns, _, hresult⟩ := (bind_eq_ok _ _ _).mp hrest
        cases hresult
        simp [entryHead, hmethod, hpredicate, hkey, hname]
      · cases hrest

theorem parseIndexEntry_head {unique : Bool} {m : Meta} {index : Index}
    (h : parseIndexEntry unique m = .ok index) :
    (entriesOf m).flatMap entryHead = [[index.name]] := by
  obtain ⟨items, hitems, h⟩ := (bind_eq_ok _ _ _).mp h
  obtain ⟨read, hread, h⟩ := (bind_eq_ok _ _ _).mp h
  have hnames := foldlM_project indexStep
    (fun state => state.name.toList.map fun name => [name])
    (fun found entry => found ++ entryHead entry)
    (fun state entry result hstep => indexStep_name hstep) items _ read hread
  rw [foldl_gather] at hnames
  rw [nested_eq_ok m hitems]
  split at h
  · cases h
  · rename_i name hname
    obtain ⟨_, hindex⟩ := (then_eq_ok _ _ _).mp h
    cases hindex
    simpa [hname] using hnames.symm

theorem checkedPolicy_head {entry : Meta} {policy : Policy}
    (h : checkedPolicy entry = .ok policy) : entry.key = [policy.name] := by
  obtain ⟨parsed, hparsed, h⟩ := (bind_eq_ok _ _ _).mp h
  obtain ⟨_, h⟩ := (then_eq_ok _ _ _).mp h
  obtain ⟨_, h⟩ := (then_eq_ok _ _ _).mp h
  cases h
  obtain ⟨name, hname, h⟩ := (bind_eq_ok _ _ _).mp hparsed
  obtain ⟨items, _, h⟩ := (bind_eq_ok _ _ _).mp h
  obtain ⟨read, _, h⟩ := (bind_eq_ok _ _ _).mp h
  obtain ⟨_, h⟩ := (then_eq_ok _ _ _).mp h
  obtain ⟨_, h⟩ := (then_eq_ok _ _ _).mp h
  cases h
  unfold requireIdent at hname
  split at hname
  · rename_i found hkey
    cases hname
    exact hkey
  · cases hname

theorem checkedPolicies_heads {entries : List Meta} {policies : List Policy}
    (h : entries.mapM checkedPolicy = .ok policies) :
    entries.map Meta.key = policies.map fun policy => [policy.name] := by
  rw [mapM_eq_ok] at h
  induction h with
  | nil => rfl
  | cons hhead _ ih => rw [map_cons, map_cons, ih, checkedPolicy_head hhead]

theorem mergeGrant_roles (new : Grant) (grants : List Grant) :
    (mergeGrant new grants).map Grant.role =
      if new.role ∈ grants.map Grant.role then grants.map Grant.role
      else grants.map Grant.role ++ [new.role] := by
  induction grants with
  | nil => rfl
  | cons grant rest ih =>
    rw [mergeGrant]
    by_cases heq : grant.role = new.role
    · simp [heq]
    · rw [if_neg heq, map_cons, ih, map_cons]
      by_cases hmem : new.role ∈ rest.map Grant.role
      · rw [if_pos hmem, if_pos (mem_cons_of_mem _ hmem)]
      · have hout : new.role ∉ grant.role :: rest.map Grant.role := by
          intro h
          rcases mem_cons.mp h with hhead | htail
          · exact heq hhead.symm
          · exact hmem htail
        rw [if_neg hmem, if_neg hout, cons_append]

theorem mergeGrant_nodup (new : Grant) {grants : List Grant}
    (h : (grants.map Grant.role).Nodup) : ((mergeGrant new grants).map Grant.role).Nodup := by
  rw [mergeGrant_roles]
  split_ifs with hmem
  · exact h
  · exact nodup_append.mpr ⟨h, nodup_singleton _, by
      intro a ha b hb heq
      rw [mem_singleton] at hb
      exact hmem (hb ▸ heq ▸ ha)⟩

/-- What a key of `#[table(...)]` adds to what was collected. -/
structure Gathers (found result : Collected) (m : Meta) : Prop where
  policies : result.policies.map (fun policy => [policy.name]) =
    found.policies.map (fun policy => [policy.name]) ++ policyHeads m
  indexes : result.indexes.map (fun index => [index.name]) =
    found.indexes.map (fun index => [index.name]) ++ indexHeads m
  grants : (found.grants.map Grant.role).Nodup → (result.grants.map Grant.role).Nodup

theorem metaStep_gathers {found result : Collected} {m : Meta}
    (h : metaStep found m = .ok result) : Gathers found result m := by
  unfold metaStep at h
  by_cases hgrant : m.isIdent "grant" = true
  · have hkey := (isIdent_eq m "grant").mp hgrant
    rw [if_pos hgrant] at h
    obtain ⟨entries, _, h⟩ := (bind_eq_ok _ _ _).mp h
    obtain ⟨grants, hgrants, h⟩ := (bind_eq_ok _ _ _).mp h
    cases h
    refine ⟨by simp [policyHeads, Meta.isIdent, hkey], by simp [indexHeads, Meta.isIdent, hkey], ?_⟩
    refine foldlM_invariant _ (fun grants : List Grant => (grants.map Grant.role).Nodup) ?_
      entries found.grants grants hgrants
    intro before entry after hstep hbefore
    obtain ⟨grant, _, hafter⟩ := (bind_eq_ok _ _ _).mp hstep
    cases hafter
    exact mergeGrant_nodup grant hbefore
  rw [if_neg hgrant] at h
  by_cases hpolicy : m.isIdent "policy" = true
  · have hkey := (isIdent_eq m "policy").mp hpolicy
    rw [if_pos hpolicy] at h
    obtain ⟨entries, hentries, h⟩ := (bind_eq_ok _ _ _).mp h
    obtain ⟨policies, hpolicies, h⟩ := (bind_eq_ok _ _ _).mp h
    cases h
    refine ⟨?_, by simp [indexHeads, Meta.isIdent, hkey], id⟩
    rw [policyHeads, if_pos hpolicy, nested_eq_ok m hentries,
      checkedPolicies_heads hpolicies, map_append]
  rw [if_neg hpolicy] at h
  by_cases hindex : m.isIdent "index" = true
  · have hkey := (isIdent_eq m "index").mp hindex
    rw [if_pos hindex] at h
    obtain ⟨index, hparsed, h⟩ := (bind_eq_ok _ _ _).mp h
    cases h
    refine ⟨by simp [policyHeads, Meta.isIdent, hkey], ?_, id⟩
    simp [indexHeads, hindex, parseIndexEntry_head hparsed]
  rw [if_neg hindex] at h
  by_cases hunique : m.isIdent "unique_index" = true
  · have hkey := (isIdent_eq m "unique_index").mp hunique
    rw [if_pos hunique] at h
    obtain ⟨index, hparsed, h⟩ := (bind_eq_ok _ _ _).mp h
    cases h
    refine ⟨by simp [policyHeads, Meta.isIdent, hkey], ?_, id⟩
    simp [indexHeads, hunique, parseIndexEntry_head hparsed]
  · rw [if_neg hunique] at h
    cases h

theorem headKeys (h : m.isIdent key = true) (hkey : key ∈ ["name", "rls", "force_rls"]) :
    policyHeads m = [] ∧ indexHeads m = [] := by
  have hm := (isIdent_eq m key).mp h
  simp only [mem_cons, not_mem_nil, or_false] at hkey
  rcases hkey with rfl | rfl | rfl <;>
    simp [policyHeads, indexHeads, Meta.isIdent, hm]

theorem tableStep_gathers {state result : TableHead × Collected} {m : Meta}
    (h : tableStep metaStep state m = .ok result) :
    Gathers state.2 result.2 m ∧
      result.1.name = if m.isIdent "name" then textOf m else state.1.name := by
  unfold tableStep at h
  by_cases hname : m.isIdent "name" = true
  · rw [if_pos hname] at h
    obtain ⟨value, hvalue, h⟩ := (bind_eq_ok _ _ _).mp h
    cases h
    obtain ⟨hpolicy, hindex⟩ := headKeys m "name" hname (by simp)
    rw [if_pos hname, (litStr_eq_ok m value).mp hvalue]
    exact ⟨⟨by simp [hpolicy], by simp [hindex], id⟩, rfl⟩
  rw [if_neg hname] at h ⊢
  by_cases hrls : m.isIdent "rls" = true
  · rw [if_pos hrls] at h
    obtain ⟨_, h⟩ := (then_eq_ok _ _ _).mp h
    cases h
    obtain ⟨hpolicy, hindex⟩ := headKeys m "rls" hrls (by simp)
    exact ⟨⟨by simp [hpolicy], by simp [hindex], id⟩, rfl⟩
  rw [if_neg hrls] at h
  by_cases hforce : m.isIdent "force_rls" = true
  · rw [if_pos hforce] at h
    obtain ⟨_, h⟩ := (then_eq_ok _ _ _).mp h
    cases h
    obtain ⟨hpolicy, hindex⟩ := headKeys m "force_rls" hforce (by simp)
    exact ⟨⟨by simp [hpolicy], by simp [hindex], id⟩, rfl⟩
  · rw [if_neg hforce] at h
    obtain ⟨found, hfound, h⟩ := (bind_eq_ok _ _ _).mp h
    cases h
    exact ⟨metaStep_gathers hfound, rfl⟩

structure NamedAs (input : DeriveInput) (found : TableMeta) : Prop where
  name : declaredTable input = some found.name
  policies : (found.policies.map fun policy => [policy.name]).Perm (declaredPolicies input)
  indexes : (found.indexes.map fun index => [index.name]).Perm (declaredIndexes input)
  distinct : (found.indexes.map Index.name).Nodup
  grants : (found.grants.map Grant.role).Nodup

theorem sortByName_perm (name : α → String) (items : List α) : (sortByName name items).Perm items :=
  perm_insertionSort _ items

theorem sortByName_sorted (name : α → String) (items : List α) :
    (sortByName name items).Pairwise fun a b => name a ≤ name b := by
  have total : Std.Total fun a b : α => name a ≤ name b := ⟨fun a b => le_total (name a) (name b)⟩
  have trans : IsTrans α fun a b => name a ≤ name b := ⟨fun _ _ _ hab hbc => hab.trans hbc⟩
  exact pairwise_insertionSort _ items

theorem nodup_of_twin {indexes : List Index}
    (sorted : indexes.Pairwise fun a b => a.name ≤ b.name) (h : twin indexes = none) :
    (indexes.map Index.name).Nodup := by
  induction indexes with
  | nil => exact nodup_nil
  | cons first rest ih =>
    cases rest with
    | nil => exact nodup_singleton _
    | cons second rest =>
      rw [twin] at h
      split_ifs at h with heq
      obtain ⟨hfirst, hrest⟩ := pairwise_cons.mp sorted
      have hsecond := (pairwise_cons.mp hrest).1
      have hlt : first.name < second.name :=
        lt_of_le_of_ne (hfirst second mem_cons_self) heq
      rw [map_cons, nodup_cons]
      refine ⟨?_, ih hrest h⟩
      intro hmem
      obtain ⟨index, hindex, hname⟩ := mem_map.mp hmem
      rcases mem_cons.mp hindex with rfl | hin
      · exact heq hname.symm
      · exact absurd (hsecond index hin) (not_le.mpr (hname ▸ hlt))

theorem tableMeta_namedAs {found : TableMeta} (h : tableMeta input = .ok found) :
    NamedAs input found := by
  obtain ⟨⟨head, collected⟩, hread, h⟩ := (bind_eq_ok _ _ _).mp h
  have hfold := readAttrs_metas _ _ _ _ _ hread
  have hname := foldlM_project _ (fun state : TableHead × Collected => state.1.name)
    (fun name m => if m.isIdent "name" then textOf m else name)
    (fun s m t hstep => (tableStep_gathers hstep).2) _ _ _ hfold
  have hpolicies := foldlM_project _
    (fun state : TableHead × Collected => state.2.policies.map fun policy => [policy.name])
    (fun names m => names ++ policyHeads m)
    (fun s m t hstep => (tableStep_gathers hstep).1.policies) _ _ _ hfold
  have hindexes := foldlM_project _
    (fun state : TableHead × Collected => state.2.indexes.map fun index => [index.name])
    (fun names m => names ++ indexHeads m)
    (fun s m t hstep => (tableStep_gathers hstep).1.indexes) _ _ _ hfold
  have hgrants := foldlM_invariant _
    (fun state : TableHead × Collected => (state.2.grants.map Grant.role).Nodup)
    (fun s m t hstep => (tableStep_gathers hstep).1.grants) _ _ _ hfold nodup_nil
  rw [foldl_last] at hname
  rw [foldl_gather] at hpolicies hindexes
  dsimp only at h
  split at h
  · cases h
  · rename_i name hhead
    obtain ⟨_, h⟩ := (then_eq_ok _ _ _).mp h
    obtain ⟨_, h⟩ := (then_eq_ok _ _ _).mp h
    obtain ⟨_, h⟩ := (then_eq_ok _ _ _).mp h
    split at h
    · cases h
    · rename_i htwin
      cases h
      refine ⟨?_, ?_, ?_, ?_, ?_⟩
      · rw [declaredTable]
        simp only [hhead] at hname
        cases hlast : lastOf "name" (metasOf "table" input.attrs) with
        | none => simp [hlast, noHead] at hname
        | some m => simpa [hlast] using hname.symm
      · rw [declaredPolicies, ← nil_append (List.flatMap _ _)]
        exact ((sortByName_perm _ _).map _).trans (.of_eq hpolicies)
      · rw [declaredIndexes, ← nil_append (List.flatMap _ _)]
        exact ((sortByName_perm _ _).map _).trans (.of_eq hindexes)
      · exact nodup_of_twin (sortByName_sorted _ _) htwin
      · exact (((sortByName_perm _ _).map Grant.role).nodup_iff).mpr hgrants

theorem columnStep_parts {state result : ColumnRead ForeignKey} {m : Meta}
    (h : columnStep (parseReference names) state m = .ok result) :
    some result.name = (if m.isIdent "name" then textOf m else some state.name) ∧
      result.references = if m.isIdent "references" then (parseReference names m).toOption
        else state.references := by
  unfold columnStep at h
  iterate 6
    rcases branch_eq_ok h with ⟨hc, _, _, rfl⟩ | ⟨_, h⟩
    · simp [Meta.isIdent, (isIdent_eq m _).mp hc]
  rcases branch_eq_ok h with ⟨hc, value, hvalue, rfl⟩ | ⟨_, h⟩
  · simp [Meta.isIdent, (isIdent_eq m _).mp hc, (litStr_eq_ok m value).mp hvalue]
  iterate 3
    rcases branch_eq_ok h with ⟨hc, _, _, rfl⟩ | ⟨_, h⟩
    · simp [Meta.isIdent, (isIdent_eq m _).mp hc]
  rcases branch_eq_ok h with ⟨hc, fk, hfk, rfl⟩ | ⟨_, h⟩
  · simp [Meta.isIdent, (isIdent_eq m _).mp hc, hfk, Except.toOption]
  rcases branch_eq_ok h with ⟨hc, _, _, rfl⟩ | ⟨_, h⟩
  · simp [Meta.isIdent, (isIdent_eq m _).mp hc]
  · cases h

theorem columnStep_reference {state result : ColumnRead ForeignKey} {m : Meta}
    (h : columnStep (parseReference names) state m = .ok result)
    (hkey : m.isIdent "references" = true) : ∃ fk, parseReference names m = .ok fk := by
  have hm := (isIdent_eq m _).mp hkey
  simp only [columnStep, Meta.isIdent, hm] at h
  simp only [List.cons.injEq, String.reduceEq, and_true, decide_false, Bool.false_eq_true, if_false,
    decide_true, if_true] at h
  obtain ⟨fk, hfk, _⟩ := (bind_eq_ok _ _ _).mp h
  exact ⟨fk, hfk⟩

theorem lastOf_text {start result : String} {metas : List Meta}
    (h : some result = ((lastOf key metas).map textOf).getD (some start)) :
    result = ((lastOf key metas).bind textOf).getD start := by
  cases hlast : lastOf key metas with
  | none => simpa [hlast] using h
  | some m =>
    rw [hlast] at h
    have htext : textOf m = some result := by simpa using h.symm
    simp [htext]

theorem parseColumn_read {field : Field} {column : Column}
    (h : parseColumn names field = .ok column) :
    column.name = declaredColumn field ∧ column.references.map (fun fk => (fk.table, fk.column)) =
        ((lastOf "references" (metasOf "column" field.attrs)).bind fun m =>
          (parseReference names m).toOption).map fun fk => (fk.table, fk.column) := by
  obtain ⟨read, hread, h⟩ := (bind_eq_ok _ _ _).mp h
  have hfold := readAttrs_metas _ _ _ _ _ hread
  have hname := foldlM_project _ (fun state : ColumnRead ForeignKey => some state.name)
    (fun name m => if m.isIdent "name" then textOf m else name)
    (fun s m t hstep => (columnStep_parts hstep).1) _ _ _ hfold
  have hreferences := foldlM_project _ (fun state : ColumnRead ForeignKey => state.references)
    (fun found m => if m.isIdent "references" then (parseReference names m).toOption else found)
    (fun s m t hstep => (columnStep_parts hstep).2) _ _ _ hfold
  rw [foldl_last] at hname hreferences
  obtain ⟨_, h⟩ := (then_eq_ok _ _ _).mp h
  split at h
  · cases h
  · cases h
    refine ⟨lastOf_text "name" hname, ?_⟩
    rw [Option.map_map, hreferences]
    cases lastOf "references" (metasOf "column" field.attrs) with
    | none | some m => rfl

theorem roleStep_name {state result : RoleRead} {m : Meta} (h : roleStep state m = .ok result) :
    result.name = if m.isIdent "name" then textOf m else state.name := by
  unfold roleStep at h
  rcases branch_eq_ok h with ⟨hc, value, hvalue, rfl⟩ | ⟨hname, h⟩
  · rw [if_pos hc, (litStr_eq_ok m value).mp hvalue]
  rw [if_neg hname]
  iterate 4
    rcases branch_eq_ok h with ⟨_, _, _, rfl⟩ | ⟨_, h⟩
    · rfl
  · cases h

theorem parseRole_named (role : Role) (h : parseRole input = .ok role) :
    declaredRole input = some role.name := by
  obtain ⟨read, hread, h⟩ := (bind_eq_ok _ _ _).mp h
  have hname := foldlM_project _ RoleRead.name
    (fun name m => if m.isIdent "name" then textOf m else name)
    (fun s m t hstep => roleStep_name hstep) _ _ _ (readAttrs_metas _ _ _ _ _ hread)
  rw [foldl_last] at hname
  split at h
  · cases h
  · rename_i name hsome
    obtain ⟨_, h⟩ := (then_eq_ok _ _ _).mp h
    cases h
    rw [hsome] at hname
    rw [declaredRole]
    cases hlast : lastOf "name" (metasOf "role" input.attrs) with
    | none => simp [hlast] at hname
    | some m => simpa [hlast] using hname.symm

theorem parseColumns_names {fields : List Field} {columns : List Column}
    (h : fields.mapM (parseColumn names) = .ok columns) :
    columns.map Column.name = fields.map declaredColumn := by
  rw [mapM_eq_ok] at h
  induction h with
  | nil => rfl
  | cons hhead _ ih => rw [map_cons, map_cons, ih, (parseColumn_read hhead).1]

structure ParsedAs (input : DeriveInput) (table : Table) : Prop where
  name : declaredTable input = some table.name
  columns : table.columns.map Column.name = (fieldsOf input).map declaredColumn
  policies : (table.policies.map fun policy => [policy.name]).Perm (declaredPolicies input)
  indexes : (table.indexes.map fun index => [index.name]).Perm (declaredIndexes input)
  grants : (table.grants.map Grant.role).Nodup
  indexed : ∀ index ∈ table.indexes, ∀ name ∈ index.columns, table.column name ≠ none

theorem parseTable_parsedAs {table : Table} (h : parseTable names input = .ok table) :
    ParsedAs input table := by
  unfold parseTable at h
  split at h
  · cases h
  · cases h
  · rename_i fields hfields
    obtain ⟨columns, hcolumns, h⟩ := (bind_eq_ok _ _ _).mp h
    obtain ⟨found, hfound, h⟩ := (bind_eq_ok _ _ _).mp h
    obtain ⟨hindexed, h⟩ := (then_eq_ok _ _ _).mp h
    cases h
    have named := tableMeta_namedAs input hfound
    refine ⟨named.name, ?_, named.policies, named.indexes, named.grants, ?_⟩
    · rw [fieldsOf, hfields]
      exact parseColumns_names hcolumns
    · intro index hindex name hname
      have hchecked := (checkAll_eq_ok _ _).mp ((checkAll_eq_ok _ _).mp hindexed index hindex) name
        hname
      rw [reject_eq_ok] at hchecked
      obtain ⟨column, hcolumn, heq⟩ : ∃ column ∈ columns, column.name = name := by
        simpa using hchecked
      intro hnone
      exact (KeyedLists.find_none Column.name columns name).mp hnone
        (mem_map.mpr ⟨column, hcolumn, heq⟩)

theorem nameTables_eq (h : nameTables inputs = .ok names) :
    names = (inputs.map fun input => (input.ident, (declaredTable input).getD "")).reverse := by
  have hnames := foldlM_project _ (fun names : TableOfIdent => names)
    (fun names input => (input.ident, (declaredTable input).getD "") :: names)
    (fun before input after hstep => by
      obtain ⟨found, hfound, hafter⟩ := (bind_eq_ok _ _ _).mp hstep
      cases hafter
      rw [(tableMeta_namedAs input hfound).name]
      rfl) inputs [] names h
  rw [hnames, foldl_flip_cons_eq_append, append_nil]

theorem lookup_map (key value : α → String) (k : String) :
    (items.map fun item => (key item, value item)).lookup k =
      (items.find? fun item => key item = k).map value := by
  induction items with
  | nil => rfl
  | cons item rest ih =>
    rw [map_cons, lookup_cons, List.find?_cons]
    by_cases h : key item = k
    · simp [h]
    · simpa [h, beq_eq_false_iff_ne.mpr (Ne.symm h)] using ih

def PathKey (inputs : List DeriveInput) (names : TableOfIdent) (fk : ForeignKey) : Prop :=
  ∃ input ∈ tableInputs inputs, ∃ field ∈ fieldsOf input, ∃ segments column,
    pathReference field = some segments ∧ (tableNamed inputs (pathParts segments).1).isSome ∧
      parseColumn names field = .ok column ∧ column.references = some fk

theorem nameTables_lookup (h : nameTables (tableInputs inputs) = .ok names) (ident : String) :
    names.lookup ident =
      (tableNamed inputs ident).map fun input => (declaredTable input).getD "" := by
  rw [nameTables_eq _ h, ← map_reverse, tableNamed]
  exact lookup_map (tableInputs inputs).reverse DeriveInput.ident _ ident

theorem parseColumn_path (h : nameTables (tableInputs inputs) = .ok names) {field : Field}
    {column : Column} (hcolumn : parseColumn names field = .ok column) {segments : List String}
    (hpath : pathReference field = some segments) {target : DeriveInput}
    (htarget : tableNamed inputs (pathParts segments).1 = some target) {fk : ForeignKey}
    (hfk : column.references = some fk) :
    fk.table = (declaredTable target).getD "" ∧ fk.column = (pathParts segments).2 := by
  have hread := (parseColumn_read hcolumn).2
  unfold pathReference at hpath
  split at hpath
  · rename_i key found hlast
    cases hpath
    rw [hlast, hfk, Option.bind_some] at hread
    cases hparsed : parseReference names (.path key segments) with
    | error message => simp [hparsed, Except.toOption] at hread
    | ok parsed =>
      obtain ⟨⟨table, name⟩, hparts, hrest⟩ := (bind_eq_ok _ _ _).mp hparsed
      obtain ⟨_, hrest⟩ := (then_eq_ok _ _ _).mp hrest
      obtain ⟨_, hrest⟩ := (then_eq_ok _ _ _).mp hrest
      cases hrest
      cases hparts
      rw [hparsed] at hread
      have heq : fk.table = (names.lookup (pathParts segments).1).getD (pathParts segments).1 ∧
          fk.column = (pathParts segments).2 := by
        simpa [Except.toOption, pathParts] using hread
      rw [nameTables_lookup inputs h, htarget] at heq
      exact heq
  · cases hpath

theorem parseColumn_path_some {field : Field} {column : Column}
    (h : parseColumn names field = .ok column) {segments : List String}
    (hpath : pathReference field = some segments) : ∃ fk, column.references = some fk := by
  have hread := (parseColumn_read h).2
  obtain ⟨read, hfold, _⟩ := (bind_eq_ok _ _ _).mp h
  unfold pathReference at hpath
  split at hpath
  · rename_i key found hlast
    obtain ⟨hmem, hkey⟩ := lastOf_some _ hlast
    obtain ⟨before, after, hstep⟩ := foldlM_steps _ _ _ _ (readAttrs_metas _ _ _ _ _ hfold) _ hmem
    obtain ⟨fk, hfk⟩ := columnStep_reference hstep hkey
    rw [hlast, Option.bind_some, hfk] at hread
    cases hreferences : column.references with
    | none => simp [hreferences, Except.toOption] at hread
    | some found => exact ⟨found, rfl⟩
  · cases hpath

theorem tableNamed_mem {ident : String} {target : DeriveInput}
    (h : tableNamed inputs ident = some target) : target ∈ tableInputs inputs :=
  mem_reverse.mp (mem_of_find?_eq_some h)

/-- What every schema that is read should satisfy. -/
structure WellFormed (inputs : List DeriveInput) (schema : Schema) : Prop where
  names : DistinctNames schema
  indexed : ∀ table ∈ schema.tables, ∀ index ∈ table.indexes, ∀ name ∈ index.columns,
    table.column name ≠ none
  paths : ∀ names, nameTables (tableInputs inputs) = .ok names → ∀ fk, PathKey inputs names fk →
    ∃ table ∈ schema.tables, table.name = fk.table ∧ table.column fk.column ≠ none
  settled : ∀ (σ : Type) (resolver : Resolver σ) (state : σ), diff resolver state schema schema = []

/-- The declarations a well-formed schema is read from. -/
structure DistinctDeclarations (inputs : List DeriveInput) : Prop where
  tables : ((tableInputs inputs).map declaredTable).Nodup
  roles : ((roleInputs inputs).map declaredRole).Nodup
  columns : ∀ input ∈ tableInputs inputs, ((fieldsOf input).map declaredColumn).Nodup
  policies : ∀ input ∈ tableInputs inputs, (declaredPolicies input).Nodup
  indexes : ((tableInputs inputs).flatMap declaredIndexes).Nodup
  paths : ∀ input ∈ tableInputs inputs, ∀ field ∈ fieldsOf input, ∀ segments target,
    pathReference field = some segments → tableNamed inputs (pathParts segments).1 = some target →
      (pathParts segments).2 ∈ (fieldsOf target).map declaredColumn

structure ReadFrom (inputs : List DeriveInput) (names : TableOfIdent) (tables : List Table)
    (roles : List Role) (schema : Schema) : Prop where
  named : nameTables (tableInputs inputs) = .ok names
  parsed : List.Forall₂ (fun input table => parseTable names input = .ok table)
    (tableInputs inputs) tables
  parsedRoles : List.Forall₂ (fun input role => parseRole input = .ok role) (roleInputs inputs) roles
  sortedTables : schema.tables.Perm tables
  sortedRoles : schema.roles.Perm roles

theorem buildSchema_readFrom {schema : Schema} (h : buildSchema inputs = .ok schema) :
    ∃ names tables roles, ReadFrom inputs names tables roles schema := by
  obtain ⟨names, hnames, h⟩ := (bind_eq_ok _ _ _).mp h
  obtain ⟨tables, htables, h⟩ := (bind_eq_ok _ _ _).mp h
  obtain ⟨roles, hroles, h⟩ := (bind_eq_ok _ _ _).mp h
  cases h
  exact ⟨names, tables, roles, hnames, (mapM_eq_ok _ _ _).mp htables, (mapM_eq_ok _ _ _).mp hroles,
    sortByName_perm _ _, sortByName_perm _ _⟩

theorem nodup_wrapped {γ : Type} (wrap : β → γ) (inj : Function.Injective wrap) (name : α → β)
    (items : List α) : (items.map fun item => wrap (name item)).Nodup ↔ (items.map name).Nodup := by
  rw [← nodup_map_iff inj, map_map]
  rfl

section
variable {inputs : List DeriveInput} {names : TableOfIdent} {tables : List Table}
  {roles : List Role} {schema : Schema} (read : ReadFrom inputs names tables roles schema)
include read

theorem ReadFrom.parsedAs : List.Forall₂ ParsedAs (tableInputs inputs) tables :=
  read.parsed.imp fun input _ h => parseTable_parsedAs input h

theorem ReadFrom.tableNames :
    (schema.tables.map Table.name).Nodup ↔ ((tableInputs inputs).map declaredTable).Nodup := by
  rw [(read.sortedTables.map Table.name).nodup_iff,
    forall₂_map_eq _ _ read.parsedAs declaredTable (fun table => some table.name)
      fun _ _ h => h.name, nodup_wrapped some (Option.some_injective String)]

theorem ReadFrom.roleNames :
    (schema.roles.map Role.name).Nodup ↔ ((roleInputs inputs).map declaredRole).Nodup := by
  rw [(read.sortedRoles.map Role.name).nodup_iff,
    forall₂_map_eq _ _ read.parsedRoles declaredRole (fun role => some role.name) parseRole_named,
    nodup_wrapped some (Option.some_injective String)]

theorem ReadFrom.indexNames :
    (schema.tables.flatMap fun table => table.indexes.map Index.name).Nodup ↔
      ((tableInputs inputs).flatMap declaredIndexes).Nodup := by
  have hperm := forall₂_flatMap_perm _ _ read.parsedAs declaredIndexes
    (fun table => table.indexes.map fun index => [index.name]) fun _ _ h => h.indexes
  have hheads : (tables.flatMap fun table => table.indexes.map fun index => [index.name]) =
      (tables.flatMap fun table => table.indexes.map Index.name).map fun name => [name] := by
    rw [map_flatMap]
    simp only [map_map]
    rfl
  rw [← hperm.nodup_iff, hheads, nodup_map_iff (fun _ _ h => singleton_inj.mp h)]
  exact (read.sortedTables.flatMap_right _).nodup_iff

theorem ReadFrom.forall_tables (P : Table → Prop) (Q : DeriveInput → Prop)
    (h : ∀ input table, ParsedAs input table → (P table ↔ Q input)) :
    (∀ table ∈ schema.tables, P table) ↔ ∀ input ∈ tableInputs inputs, Q input := by
  constructor
  · intro hall input hinput
    obtain ⟨table, htable, hparsed⟩ := exists_result _ _ read.parsedAs hinput
    exact (h input table hparsed).mp (hall table (read.sortedTables.mem_iff.mpr htable))
  · intro hall table htable
    obtain ⟨input, hinput, hparsed⟩ := exists_input _ _ read.parsedAs
      (read.sortedTables.mem_iff.mp htable)
    exact (h input table hparsed).mpr (hall input hinput)

theorem ReadFrom.columnNames : (∀ table ∈ schema.tables, (table.columns.map Column.name).Nodup) ↔
      ∀ input ∈ tableInputs inputs, ((fieldsOf input).map declaredColumn).Nodup :=
  read.forall_tables (fun table => (table.columns.map Column.name).Nodup)
    (fun input => ((fieldsOf input).map declaredColumn).Nodup)
    fun _ _ h => by rw [h.columns]

theorem ReadFrom.policyNames : (∀ table ∈ schema.tables, (table.policies.map Policy.name).Nodup) ↔
      ∀ input ∈ tableInputs inputs, (declaredPolicies input).Nodup := by
  refine read.forall_tables (fun table => (table.policies.map Policy.name).Nodup)
    (fun input => (declaredPolicies input).Nodup) fun input table h => ?_
  rw [← h.policies.nodup_iff,
    nodup_wrapped (fun name => [name]) fun _ _ heq => singleton_inj.mp heq]

theorem ReadFrom.fieldColumn {input : DeriveInput} (hinput : input ∈ tableInputs inputs)
    {field : Field} (hfield : field ∈ fieldsOf input) :
    ∃ column, parseColumn names field = .ok column := by
  obtain ⟨table, _, h⟩ := exists_result _ _ read.parsed hinput
  unfold parseTable at h
  unfold fieldsOf at hfield
  split at h
  · cases h
  · cases h
  · rename_i fields hfields
    rw [hfields] at hfield
    obtain ⟨columns, hcolumns, _⟩ := (bind_eq_ok _ _ _).mp h
    obtain ⟨column, _, hcolumn⟩ := exists_result _ _ ((mapM_eq_ok _ _ _).mp hcolumns) hfield
    exact ⟨column, hcolumn⟩

theorem ReadFrom.declares {input : DeriveInput} (hinput : input ∈ tableInputs inputs) :
    ∃ table ∈ schema.tables, ParsedAs input table := by
  obtain ⟨table, htable, hparsed⟩ := exists_result _ _ read.parsedAs hinput
  exact ⟨table, read.sortedTables.mem_iff.mpr htable, hparsed⟩

theorem ReadFrom.paths_iff (distinct : (schema.tables.map Table.name).Nodup) :
    (∀ found, nameTables (tableInputs inputs) = .ok found → ∀ fk, PathKey inputs found fk →
      ∃ table ∈ schema.tables, table.name = fk.table ∧ table.column fk.column ≠ none) ↔
    ∀ input ∈ tableInputs inputs, ∀ field ∈ fieldsOf input, ∀ segments target,
      pathReference field = some segments → tableNamed inputs (pathParts segments).1 = some target →
        (pathParts segments).2 ∈ (fieldsOf target).map declaredColumn := by
  constructor
  · intro h input hinput field hfield segments target hpath htarget
    obtain ⟨column, hcolumn⟩ := read.fieldColumn hinput hfield
    obtain ⟨fk, hfk⟩ := parseColumn_path_some hcolumn hpath
    obtain ⟨table, htable, hname, hexists⟩ := h names read.named fk
      ⟨input, hinput, field, hfield, segments, column, hpath, by rw [htarget]; rfl, hcolumn, hfk⟩
    obtain ⟨hfktable, hfkcolumn⟩ := parseColumn_path inputs read.named hcolumn hpath htarget hfk
    obtain ⟨declared, hdeclared, hparsed⟩ := read.declares (tableNamed_mem inputs htarget)
    have heq : table = declared := by
      refine inj_on_of_nodup_map distinct htable hdeclared ?_
      rw [hname, hfktable, hparsed.name]
      rfl
    rw [← hparsed.columns, ← heq, ← hfkcolumn]
    exact not_not.mp fun hout => hexists ((KeyedLists.find_none Column.name _ _).mpr hout)
  · intro h found hfound fk hkey
    obtain ⟨input, hinput, field, hfield, segments, column, hpath, hsome, hcolumn, hfk⟩ := hkey
    obtain ⟨target, htarget⟩ := Option.isSome_iff_exists.mp hsome
    obtain ⟨hfktable, hfkcolumn⟩ := parseColumn_path inputs hfound hcolumn hpath htarget hfk
    obtain ⟨table, htable, hparsed⟩ := read.declares (tableNamed_mem inputs htarget)
    refine ⟨table, htable, ?_, ?_⟩
    · rw [hfktable, hparsed.name]
      rfl
    · intro hnone
      refine (KeyedLists.find_none Column.name _ _).mp hnone ?_
      rw [hparsed.columns, hfkcolumn]
      exact h input hinput field hfield segments target hpath htarget

theorem ReadFrom.distinct_iff : DistinctNames schema ↔
    ((tableInputs inputs).map declaredTable).Nodup ∧ ((roleInputs inputs).map declaredRole).Nodup ∧
      (∀ input ∈ tableInputs inputs, ((fieldsOf input).map declaredColumn).Nodup) ∧
      (∀ input ∈ tableInputs inputs, (declaredPolicies input).Nodup) ∧
      ((tableInputs inputs).flatMap declaredIndexes).Nodup := by
  rw [← read.tableNames, ← read.roleNames, ← read.columnNames, ← read.policyNames,
    ← read.indexNames]
  refine ⟨fun h => ⟨h.tables, h.roles, h.columns, h.policies, h.indexes⟩, ?_⟩
  rintro ⟨htables, hroles, hcolumns, hpolicies, hindexes⟩
  refine ⟨htables, hroles, hcolumns, hpolicies, ?_, hindexes⟩
  intro table htable
  obtain ⟨input, _, hparsed⟩ := exists_input _ _ read.parsedAs
    (read.sortedTables.mem_iff.mp htable)
  exact hparsed.grants

end

theorem schema_well_formed_iff (inputs : List DeriveInput) (schema : Schema)
    (h : buildSchema inputs = .ok schema) :
    WellFormed inputs schema ↔ DistinctDeclarations inputs := by
  obtain ⟨names, tables, roles, read⟩ := buildSchema_readFrom inputs h
  constructor
  · intro formed
    obtain ⟨htables, hroles, hcolumns, hpolicies, hindexes⟩ := read.distinct_iff.mp formed.names
    exact ⟨htables, hroles, hcolumns, hpolicies, hindexes,
      (read.paths_iff formed.names.tables).mp formed.paths⟩
  · intro declared
    have distinct : DistinctNames schema := read.distinct_iff.mpr ⟨declared.tables, declared.roles,
      declared.columns, declared.policies, declared.indexes⟩
    refine ⟨distinct, ?_, (read.paths_iff distinct.tables).mpr declared.paths,
      fun σ resolver state => diff_self distinct resolver state⟩
    intro table htable
    obtain ⟨input, _, hparsed⟩ := exists_input _ _ read.parsedAs
      (read.sortedTables.mem_iff.mp htable)
    exact hparsed.indexed

def tableStruct (ident : String) (items : List Meta) (fields : List Field) : DeriveInput :=
  ⟨ident, [⟨"derive", some [.flag ["Table"]]⟩, ⟨"table", some items⟩], .named fields⟩

def blog (idAttrs : List Attribute) : List DeriveInput :=
  [tableStruct "User" [.text ["name"] "users"] [⟨"id", .path "i64" [], idAttrs⟩],
    tableStruct "Post" [.text ["name"] "posts"]
      [⟨"author", .path "i64" [], [⟨"column", some [.path ["references"] ["User", "id"]]⟩]⟩]]

def plainColumn (name : String) (references : Option ForeignKey) : Column :=
  ⟨name, "bigint", false, false, false, false, none, none, none, none, references⟩

def blogSchema (id : String) : Schema :=
  ⟨[⟨"posts", [plainColumn "author" (some ⟨"users", "id", "no action"⟩)], false, false, [], [], []⟩,
    ⟨"users", [plainColumn id none], false, false, [], [], []⟩], []⟩

theorem schema_well_formed_blog :
    buildSchema (blog []) = .ok (blogSchema "id") ∧ WellFormed (blog []) (blogSchema "id") := by
  have hread : buildSchema (blog []) = .ok (blogSchema "id") := by rfl
  refine ⟨hread, (schema_well_formed_iff (blog []) (blogSchema "id") hread).mpr ?_⟩
  refine ⟨by decide, by decide, by decide, by decide, by decide, ?_⟩
  intro input hinput field hfield segments target hpath htarget
  have hinputs : tableInputs (blog []) = blog [] := rfl
  rw [hinputs, blog] at hinput
  rcases mem_cons.mp hinput with rfl | hinput
  · rw [mem_singleton.mp hfield] at hpath
    cases hpath
  · rw [mem_singleton.mp hinput] at hfield
    rw [mem_singleton.mp hfield] at hpath
    cases hpath
    cases htarget
    decide

theorem renamed_key_dangles :
    buildSchema (blog [⟨"column", some [.text ["name"] "user_id"]⟩]) = .ok (blogSchema "user_id") ∧
      ¬WellFormed (blog [⟨"column", some [.text ["name"] "user_id"]⟩]) (blogSchema "user_id") := by
  refine ⟨rfl, fun formed => ?_⟩
  obtain ⟨table, htable, hname, hcolumn⟩ := formed.paths [("Post", "posts"), ("User", "users")] rfl
    ⟨"users", "id", "no action"⟩ ⟨_, mem_cons_of_mem _ mem_cons_self, _,
      mem_cons_self, ["User", "id"], plainColumn "author" (some ⟨"users", "id", "no action"⟩),
      rfl, rfl, rfl, rfl⟩
  rcases mem_cons.mp htable with rfl | htable
  · exact absurd hname (by decide)
  · rw [mem_singleton.mp htable] at hcolumn
    exact hcolumn rfl

end Stakit.SchemaNames
