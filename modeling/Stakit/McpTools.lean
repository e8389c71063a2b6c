import Mathlib.Data.String.Basic
import Stakit.EntryMaps

set_option autoImplicit false

namespace Stakit.McpTools
open EntryMaps

variable {σ τ ν α κ : Type}

/-- The schema of the arguments is as the tool gives it. -/
structure ToolDef (σ : Type) where
  name : String
  description : String
  parameters : σ
  strict : Bool
  cache : Bool

def ToolDef.new (name description : String) (parameters : σ) : ToolDef σ :=
  ⟨name, description, parameters, false, false⟩

structure McpTool (σ : Type) where
  name : String
  description : String
  inputSchema : σ

structure McpToolSet (σ τ : Type) where
  server : String
  transport : τ
  tools : List (McpTool σ)

inductive ToolDyn (σ τ ν : Type) where
  | native (toolDef : ToolDef σ) (body : ν)
  | mcp (toolDef : ToolDef σ) (remoteName : String) (transport : τ)

def ToolDyn.toolDef : ToolDyn σ τ ν → ToolDef σ
  | .native toolDef _ => toolDef
  | .mcp toolDef _ _ => toolDef

/-- What a call reaches: a body of the program or a tool of a connection. -/
inductive Reached (τ ν α : Type) where
  | native (body : ν) (args : α)
  | remote (transport : τ) (name : String) (args : α)
  deriving DecidableEq

def ToolDyn.callJson (args : α) : ToolDyn σ τ ν → Reached τ ν α
  | .native _ body => .native body args
  | .mcp _ remoteName transport => .remote transport remoteName args

def toolName (server tool : String) : String := "mcp__" ++ server ++ "__" ++ tool

def McpToolSet.toolNames (set : McpToolSet σ τ) : List String :=
  set.tools.map fun tool => toolName set.server tool.name

def McpToolSet.tool (set : McpToolSet σ τ) (tool : McpTool σ) : ToolDyn σ τ ν :=
  .mcp (.new (toolName set.server tool.name) tool.description tool.inputSchema) tool.name
    set.transport

def McpToolSet.intoTools (set : McpToolSet σ τ) : List (ToolDyn σ τ ν) := set.tools.map set.tool

structure Entry (σ τ ν : Type) where
  tool : ToolDyn σ τ ν
  toolDef : ToolDef σ
  tags : List String
  defer : Bool

abbrev ToolRegistry (σ τ ν : Type) := Entries String (Entry σ τ ν)

namespace ToolRegistry

def insert (registry : ToolRegistry σ τ ν) (tool : ToolDyn σ τ ν) (tags : List String)
    (defer : Bool) : ToolRegistry σ τ ν :=
  insertInPlace registry tool.toolDef.name ⟨tool, tool.toolDef, tags, defer⟩

def registerSet (registry : ToolRegistry σ τ ν) (tools : List (ToolDyn σ τ ν)) :
    ToolRegistry σ τ ν :=
  tools.foldl (fun registry tool => registry.insert tool [] false) registry

def get (registry : ToolRegistry σ τ ν) (name : String) : Option (ToolDyn σ τ ν) :=
  (registry.lookup name).map Entry.tool

def len (registry : ToolRegistry σ τ ν) : ℕ := registry.length

def call (registry : ToolRegistry σ τ ν) (name : String) (args : α) : Option (Reached τ ν α) :=
  (registry.get name).map (ToolDyn.callJson args)

end ToolRegistry

/-- A native tool with its tags and whether it is deferred, or the tools of a server. -/
inductive Registration (σ τ ν : Type) where
  | native (toolDef : ToolDef σ) (body : ν) (tags : List String) (defer : Bool)
  | server (set : McpToolSet σ τ)

namespace Registration

def apply (registry : ToolRegistry σ τ ν) : Registration σ τ ν → ToolRegistry σ τ ν
  | .native toolDef body tags defer => registry.insert (.native toolDef body) tags defer
  | .server set => registry.registerSet set.intoTools

def names : Registration σ τ ν → List String
  | .native toolDef _ _ _ => [toolDef.name]
  | .server set => set.toolNames

def entries : Registration σ τ ν → Entries String (Entry σ τ ν)
  | .native toolDef body tags defer => [(toolDef.name, ⟨.native toolDef body, toolDef, tags, defer⟩)]
  | .server set => set.tools.map fun tool =>
      (toolName set.server tool.name, ⟨set.tool tool, (set.tool tool : ToolDyn σ τ ν).toolDef, [], false⟩)

end Registration

/-- All tools are registered in one registry, in any order of the native ones and the servers. -/
def registry (registrations : List (Registration σ τ ν)) : ToolRegistry σ τ ν :=
  registrations.foldl Registration.apply []

variable (server tool : String) (registrations : List (Registration σ τ ν))

theorem registry_eq :
    registry registrations = indexMap (registrations.flatMap Registration.entries) := by
  unfold registry indexMap
  rw [List.foldl_flatMap]
  congr 1
  funext found registration
  cases registration with
  | native toolDef body tags defer => rfl
  | server set =>
    change (set.tools.map set.tool).foldl _ found = (set.tools.map _).foldl _ found
    rw [List.foldl_map, List.foldl_map]
    rfl

theorem keys_entries : (registrations.flatMap Registration.entries).map Prod.fst =
      registrations.flatMap Registration.names := by
  rw [List.map_flatMap]
  congr 1
  funext registration
  cases registration with
  | native toolDef body tags defer => rfl
  | server set => exact List.map_map

/-- A registered server of its own name, with tools of distinct names, or a native tool whose
name does not start as those of the servers do. -/
def Registration.Named : Registration σ τ ν → Prop
  | .native toolDef _ _ _ => ¬ "mcp__".toList <+: toolDef.name.toList
  | .server set => (set.tools.map McpTool.name).Nodup

def Registration.OtherServer : Registration σ τ ν → Registration σ τ ν → Prop
  | .server a, .server b => a.server ≠ b.server
  | _, _ => True

/-- The second server's name goes on where the first one's ends, and the first tool's name goes
on before the second one's. -/
def NamesOverlap (server server' tool tool' : String) : Prop :=
  (server' = server ++ "_" ∧ tool = "_" ++ tool') ∨
    ∃ middle, server' = server ++ "__" ++ middle ∧ tool = middle ++ "__" ++ tool'

def Confuses (a b : McpToolSet σ τ) : Prop :=
  ∃ tool ∈ a.tools, ∃ other ∈ b.tools, NamesOverlap a.server b.server tool.name other.name

def Registration.Apart : Registration σ τ ν → Registration σ τ ν → Prop
  | .native a _ _ _, .native b _ _ _ => a.name ≠ b.name
  | .server a, .server b => ¬ Confuses a b ∧ ¬ Confuses b a
  | _, _ => True

/-- One part of a name ends before the separator of the other does, or reaches beyond it. -/
def Overlaps (sep : κ) (front front' back back' : List κ) : Prop :=
  (front' = front ++ [sep] ∧ back = sep :: back') ∨
    ∃ middle, front' = front ++ sep :: sep :: middle ∧ back = middle ++ sep :: sep :: back'

theorem overlaps_of_prefix {sep : κ} (front : List κ) {back back' extra : List κ}
    (h : sep :: sep :: back = extra ++ sep :: sep :: back') :
    (extra = [] ∧ back = back') ∨ Overlaps sep front (front ++ extra) back back' := by
  match extra with
  | [] =>
    cases h
    exact .inl ⟨rfl, rfl⟩
  | [c] =>
    cases h
    exact .inr (.inl ⟨rfl, rfl⟩)
  | c :: d :: middle =>
    cases h
    exact .inr (.inr ⟨middle, rfl, rfl⟩)

theorem joined_eq_iff (sep : κ) (front front' back back' : List κ) (hne : front ≠ front') :
    front ++ sep :: sep :: back = front' ++ sep :: sep :: back' ↔
      Overlaps sep front front' back back' ∨ Overlaps sep front' front back' back := by
  constructor
  · intro h
    rcases List.append_eq_append_iff.mp h with ⟨extra, rfl, hback⟩ | ⟨extra, rfl, hback⟩
    · rcases overlaps_of_prefix front hback with ⟨rfl, _⟩ | hover
      · exact absurd (List.append_nil front).symm hne
      · exact .inl hover
    · rcases overlaps_of_prefix front' hback with ⟨rfl, _⟩ | hover
      · exact absurd (List.append_nil front') hne
      · exact .inr hover
  · rintro ((⟨rfl, rfl⟩ | ⟨middle, rfl, rfl⟩) | (⟨rfl, rfl⟩ | ⟨middle, rfl, rfl⟩))
    · rw [List.append_assoc]
      rfl
    · rw [List.append_assoc]
      rfl
    · rw [List.append_assoc]
      rfl
    · rw [List.append_assoc]
      rfl

theorem namesOverlap_iff (server' tool tool' : String) : NamesOverlap server server' tool tool' ↔
      Overlaps '_' server.toList server'.toList tool.toList tool'.toList := by
  unfold NamesOverlap Overlaps
  simp only [← String.toList_inj, String.toList_append]
  constructor
  · rintro (⟨h, h'⟩ | ⟨middle, h, h'⟩)
    · exact .inl ⟨h, h'⟩
    · exact .inr ⟨middle.toList, by rw [h, List.append_assoc]; rfl, by rw [h', List.append_assoc]; rfl⟩
  · rintro (⟨h, h'⟩ | ⟨middle, h, h'⟩)
    · exact .inl ⟨h, h'⟩
    · exact .inr ⟨.ofList middle, by simp [h], by simp [h']⟩

theorem toList_toolName : (toolName server tool).toList =
      "mcp__".toList ++ (server.toList ++ '_' :: '_' :: tool.toList) := by
  unfold toolName
  rw [String.toList_append, String.toList_append, String.toList_append]
  simp

theorem toolName_eq_iff {server' : String} (tool tool' : String) (hne : server ≠ server') :
    toolName server tool = toolName server' tool' ↔
      NamesOverlap server server' tool tool' ∨ NamesOverlap server' server tool' tool := by
  rw [← String.toList_inj, toList_toolName, toList_toolName, List.append_right_inj,
    joined_eq_iff '_' _ _ _ _ (fun h => hne (String.toList_inj.mp h)), namesOverlap_iff,
    namesOverlap_iff]

theorem toolName_inj (tool' : String) :
    toolName server tool = toolName server tool' ↔ tool = tool' := by
  rw [← String.toList_inj, toList_toolName, toList_toolName, List.append_right_inj,
    List.append_right_inj, List.cons_inj_right, List.cons_inj_right, String.toList_inj]

theorem nodup_toolNames {set : McpToolSet σ τ} (h : (set.tools.map McpTool.name).Nodup) :
    set.toolNames.Nodup := by
  rw [List.nodup_iff_pairwise_ne, List.pairwise_map] at h
  unfold McpToolSet.toolNames
  rw [List.nodup_iff_pairwise_ne, List.pairwise_map]
  exact h.imp fun hne heq => hne ((toolName_inj _ _ _).mp heq)

theorem disjoint_toolNames {a b : McpToolSet σ τ} (hne : a.server ≠ b.server) :
    a.toolNames.Disjoint b.toolNames ↔ ¬ Confuses a b ∧ ¬ Confuses b a := by
  unfold McpToolSet.toolNames Confuses
  constructor
  · intro h
    constructor
    · rintro ⟨tool, htool, other, hother, hover⟩
      have heq := (toolName_eq_iff _ _ _ hne).mpr (.inl hover)
      exact h (List.mem_map_of_mem htool) (heq ▸ List.mem_map_of_mem hother)
    · rintro ⟨other, hother, tool, htool, hover⟩
      have heq := (toolName_eq_iff _ _ _ hne).mpr (.inr hover)
      exact h (List.mem_map_of_mem htool) (heq ▸ List.mem_map_of_mem hother)
  · rintro ⟨hab, hba⟩ name hname hname'
    obtain ⟨tool, htool, rfl⟩ := List.mem_map.mp hname
    obtain ⟨other, hother, heq⟩ := List.mem_map.mp hname'
    rcases (toolName_eq_iff _ _ _ hne).mp heq.symm with hover | hover
    · exact hab ⟨tool, htool, other, hother, hover⟩
    · exact hba ⟨other, hother, tool, htool, hover⟩

theorem native_apart {name : String} (set : McpToolSet σ τ)
    (h : ¬ "mcp__".toList <+: name.toList) : name ∉ set.toolNames := by
  intro hname
  obtain ⟨tool, _, rfl⟩ := List.mem_map.mp hname
  rw [toList_toolName] at h
  exact h (List.prefix_append _ _)

theorem disjoint_names {a b : Registration σ τ ν} (ha : a.Named) (hb : b.Named)
    (hservers : a.OtherServer b) : a.names.Disjoint b.names ↔ a.Apart b := by
  cases a with
  | native toolDef _ _ _ =>
    cases b with
    | native other _ _ _ => exact List.disjoint_singleton.trans (not_congr (List.mem_singleton.trans eq_comm))
    | server set =>
      refine iff_of_true ?_ trivial
      exact List.disjoint_comm.mp (List.disjoint_singleton.mpr (native_apart set ha))
  | server set =>
    cases b with
    | native other _ _ _ =>
      exact iff_of_true (List.disjoint_singleton.mpr (native_apart set hb)) trivial
    | server other => exact disjoint_toolNames hservers

theorem nodup_names (hnamed : ∀ r ∈ registrations, r.Named)
    (hservers : registrations.Pairwise Registration.OtherServer) :
    (registrations.flatMap Registration.names).Nodup ↔
      registrations.Pairwise Registration.Apart := by
  have heach : ∀ r ∈ registrations, r.names.Nodup := by
    intro r hr
    cases r with
    | native toolDef _ _ _ => exact List.nodup_singleton _
    | server set => exact nodup_toolNames (hnamed _ hr)
  rw [List.nodup_flatMap]
  constructor
  · rintro ⟨_, h⟩
    exact (h.and hservers).imp_of_mem fun ha hb hab =>
      (disjoint_names (hnamed _ ha) (hnamed _ hb) hab.2).mp hab.1
  · intro h
    exact ⟨heach, (h.and hservers).imp_of_mem fun ha hb hab =>
      (disjoint_names (hnamed _ ha) (hnamed _ hb) hab.2).mpr hab.1⟩

/-- Every tool that was registered is there, and a call under its name reaches it. -/
def Unambiguous (α : Type) (registrations : List (Registration σ τ ν)) : Prop :=
  (registry registrations).len = (registrations.flatMap Registration.names).length ∧
    (∀ set, .server set ∈ registrations → ∀ tool ∈ set.tools, ∀ args : α,
      (registry registrations).call (toolName set.server tool.name) args =
        some (.remote set.transport tool.name args)) ∧
    ∀ toolDef body tags defer, .native toolDef body tags defer ∈ registrations → ∀ args : α,
      (registry registrations).call toolDef.name args = some (.native body args)

theorem registered (h : (registrations.flatMap Registration.names).Nodup) (name : String)
    (entry : Entry σ τ ν) (hentry : (name, entry) ∈ registrations.flatMap Registration.entries) :
    (registry registrations).get name = some entry.tool := by
  rw [← keys_entries] at h
  unfold ToolRegistry.get
  rw [registry_eq, lookup_indexMap, last_of_nodup _ h, lookup_of_nodup _ h hentry]
  rfl

theorem unambiguous_iff_nodup :
    Unambiguous α registrations ↔ (registrations.flatMap Registration.names).Nodup := by
  constructor
  · rintro ⟨hlen, _⟩
    rw [← keys_entries, ← length_indexMap, ← registry_eq]
    rw [← keys_entries, List.length_map] at hlen
    exact hlen
  · intro h
    refine ⟨?_, fun set hset tool htool args => ?_, fun toolDef body tags defer hnative args => ?_⟩
    · rw [← keys_entries] at h ⊢
      rw [List.length_map, registry_eq]
      exact (length_indexMap _).mpr h
    · unfold ToolRegistry.call
      rw [registered registrations h _ _ (List.mem_flatMap.mpr
        ⟨.server set, hset, List.mem_map_of_mem htool⟩)]
      rfl
    · unfold ToolRegistry.call
      rw [registered registrations h _ _ (List.mem_flatMap.mpr
        ⟨.native toolDef body tags defer, hnative, List.mem_singleton_self _⟩)]
      rfl

theorem tools_unambiguous_iff (hnamed : ∀ r ∈ registrations, r.Named)
    (hservers : registrations.Pairwise Registration.OtherServer) :
    Unambiguous α registrations ↔ registrations.Pairwise Registration.Apart :=
  (unambiguous_iff_nodup registrations).trans (nodup_names registrations hnamed hservers)

def mcpTool (name : String) : McpTool Unit := ⟨name, "", ()⟩

theorem tools_unambiguous_search :
    Unambiguous Unit [(.server ⟨"web", 0, [mcpTool "search", mcpTool "fetch"]⟩ :
      Registration Unit ℕ Unit), .server ⟨"web2", 1, [mcpTool "search"]⟩,
      .native (.new "search" "" ()) () [] false] := by
  refine (tools_unambiguous_iff _ ?_ ?_).mpr ?_
  · rw [List.forall_mem_cons, List.forall_mem_cons, List.forall_mem_singleton]
    refine ⟨?_, ?_, ?_⟩
    · change (["search", "fetch"] : List String).Nodup
      decide
    · exact List.nodup_singleton _
    · change ¬ "mcp__".toList <+: "search".toList
      decide
  · rw [List.pairwise_cons, List.pairwise_pair, List.forall_mem_cons, List.forall_mem_singleton]
    refine ⟨⟨?_, trivial⟩, trivial⟩
    change "web" ≠ "web2"
    decide
  · rw [List.pairwise_cons, List.pairwise_pair, List.forall_mem_cons, List.forall_mem_singleton]
    refine ⟨⟨⟨?_, ?_⟩, trivial⟩, trivial⟩
    · rintro ⟨tool, _, other, _, hover⟩
      rcases (namesOverlap_iff _ _ _ _).mp hover with ⟨h, _⟩ | ⟨middle, h, _⟩
      · exact absurd h (by decide)
      · cases h
    · rintro ⟨tool, _, other, _, hover⟩
      rcases (namesOverlap_iff _ _ _ _).mp hover with ⟨h, _⟩ | ⟨middle, h, _⟩
      · exact absurd h (by decide)
      · cases h

/-- Of two servers, one named as the other and a tool's first part, the later one is called. -/
theorem tools_rerouted : (registry [(.server ⟨"a", 0, [mcpTool "b__c"]⟩ : Registration Unit ℕ Unit),
      .server ⟨"a__b", 1, [mcpTool "c"]⟩]).call (toolName "a" "b__c") () = some (.remote 1 "c" ()) ∧
      ¬ Unambiguous Unit [(.server ⟨"a", 0, [mcpTool "b__c"]⟩ : Registration Unit ℕ Unit),
        .server ⟨"a__b", 1, [mcpTool "c"]⟩] := by
  refine ⟨by decide, ?_⟩
  rw [unambiguous_iff_nodup]
  decide

end Stakit.McpTools
