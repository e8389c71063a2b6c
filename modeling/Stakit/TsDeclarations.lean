import Stakit.NamedWalks
import Stakit.TsTypes

set_option autoImplicit false

namespace Stakit.TsTypes
open FiniteMap FuelRuns NamedWalks List

abbrev Decls := Map String String

structure Model where
  params : ℕ
  ir : Ir

/-- The items of a program, by their names. -/
structure Source where
  unicode : Unicode
  camel : Bool
  model : String → Option Model

mutual

/-- The instances that a type is made of, through the built-in types. -/
def mentions : Ty → List Instance
  | .scalar _ | .param _ => []
  | .pointer _ inner | .option inner | .sequence _ inner => mentions inner
  | .mapping _ key value => mentions key ++ mentions value
  | .tuple items => mentionsAll items
  | .model name args => [⟨name, args⟩]

def mentionsAll : List Ty → List Instance
  | [] => []
  | item :: items => mentions item ++ mentionsAll items

end

section
variable (enter : Decls → Instance → Option Decls)

mutual

/-- `ts_declarations` of a type, given that of the derived ones. -/
def declareWith : Ty → Decls → Option Decls
  | .scalar _, out | .param _, out => some out
  | .pointer _ inner, out | .option inner, out | .sequence _ inner, out => declareWith inner out
  | .mapping _ key value, out => (declareWith key out).bind (declareWith value)
  | .tuple items, out => declareEach items out
  | .model name args, out => enter out ⟨name, args⟩

def declareEach : List Ty → Decls → Option Decls
  | [], out => some out
  | item :: items, out => (declareWith item out).bind (declareEach items)

end

end

namespace Source
variable (source : Source)

def ir (it : Instance) : Ir := ((source.model it.name).map Model.ir).getD (.struct .unit)

/-- What `ts_declarations` of a derived type recurses on. -/
def walkedTypes (it : Instance) : List Ty :=
  (fieldTypes (source.ir it)).map (fun ty => ((optionInner ty).getD ty).subst it.args) ++ it.args

def tsRef (it : Instance) : String := it.tsRef source.unicode

def decl (it : Instance) : String :=
  declExpr source.unicode source.camel it.args (source.tsRef it) (source.ir it)

/-- `ts_declarations` of a derived type -/
def enter : ℕ → Decls → Instance → Option Decls
  | 0, _, _ => none
  | fuel + 1, out, it =>
    if source.tsRef it ∈ out then some out
    else declareEach (enter fuel) (source.walkedTypes it) (out.insert (source.tsRef it) (source.decl it))

def tsDeclarations (fuel : ℕ) (out : Decls) (ty : Ty) : Option Decls :=
  declareWith (source.enter fuel) ty out

def next (it : Instance) : List Instance := mentionsAll (source.walkedTypes it)

end Source

structure Signature where
  input : Ty
  output : Ty

def Signature.types (signature : Signature) : List Ty := [signature.input, signature.output]

/-- In the order in which the tables of a router give them out. -/
structure Router where
  actions : List Signature
  borrowActions : List Signature
  streams : List Signature
  clientActions : List Signature
  channels : List Ty

def Router.collected (router : Router) : List Signature :=
  router.actions ++ router.borrowActions ++ router.streams

def Router.apart (router : Router) : List (List Ty) :=
  router.clientActions.map Signature.types ++ router.channels.map fun key => [key]

def Router.types (router : Router) : List Ty :=
  router.collected.flatMap Signature.types ++ router.apart.flatten

namespace Source
variable (source : Source)

def collect (fuel : ℕ) (types : List Ty) (out : Decls) : Option Decls :=
  types.foldlM (source.tsDeclarations fuel) out

/-- The map of declarations that `generate` writes out. -/
def generate (router : Router) (fuel : ℕ) : Option Decls :=
  (source.collect fuel (router.collected.flatMap Signature.types) ∅).bind fun decls =>
    router.apart.foldlM (fun decls types => (source.collect fuel types ∅).map (merge decls)) decls

end Source

/-- A router with its models, and what the compiler has instantiated of them. The derive refuses
two fields of one name. -/
structure App extends Source where
  router : Router
  instances : List Instance
  defined : ∀ it ∈ instances, ∃ item, model it.name = some item ∧ it.args.length = item.params
  distinct : ∀ it ∈ instances, ∀ body ∈ (toSource.ir it).bodies,
    (body.fields.map fun field => wireName camel field.label).Nodup
  rooted : ∀ ty ∈ router.types, ∀ it ∈ mentions ty, it ∈ instances
  closed : ∀ it ∈ instances, ∀ later ∈ toSource.next it, later ∈ instances

def App.Reachable (app : App) : Instance → Prop :=
  Reaches app.next (mentionsAll app.router.types)

theorem mentionsAll_append (items more : List Ty) :
    mentionsAll (items ++ more) = mentionsAll items ++ mentionsAll more := by
  induction items with
  | nil => rfl
  | cons item items ih => rw [cons_append, mentionsAll, mentionsAll, ih, append_assoc]

theorem mem_mentionsAll {items : List Ty} {it : Instance} :
    it ∈ mentionsAll items ↔ ∃ item ∈ items, it ∈ mentions item := by
  induction items with
  | nil => exact ⟨nofun, fun ⟨_, h, _⟩ => absurd h not_mem_nil⟩
  | cons item items ih => rw [mentionsAll, mem_append, ih, exists_mem_cons_iff]

mutual

theorem declareWith_eq (enter : Decls → Instance → Option Decls) (ty : Ty) (out : Decls) :
    declareWith enter ty out = (mentions ty).foldlM enter out := by
  cases ty with
  | scalar scalar | param index => rfl
  | pointer kind inner | option inner | sequence kind inner => exact declareWith_eq enter inner out
  | mapping kind key value =>
    rw [declareWith, mentions, foldlM_append, declareWith_eq enter key out]
    refine Option.bind_congr fun mid _ => ?_
    exact declareWith_eq enter value mid
  | tuple items => exact declareEach_eq enter items out
  | model name args =>
    rw [declareWith, mentions, foldlM_cons]
    exact (bind_pure (enter out ⟨name, args⟩)).symm

theorem declareEach_eq (enter : Decls → Instance → Option Decls) (items : List Ty) (out : Decls) :
    declareEach enter items out = (mentionsAll items).foldlM enter out := by
  cases items with
  | nil => rfl
  | cons item items =>
    rw [declareEach, mentionsAll, foldlM_append, declareWith_eq enter item out]
    refine Option.bind_congr fun mid _ => ?_
    exact declareEach_eq enter items mid

end

namespace Source
variable (source : Source)

theorem enter_eq (fuel : ℕ) : source.enter fuel = visit source.tsRef source.decl source.next fuel := by
  induction fuel with
  | zero => rfl
  | succ fuel ih =>
    funext out it
    rw [enter, visit, declareEach_eq, ih]
    rfl

theorem collect_eq (fuel : ℕ) (types : List Ty) (out : Decls) : source.collect fuel types out =
      (mentionsAll types).foldlM (visit source.tsRef source.decl source.next fuel) out := by
  unfold collect
  induction types generalizing out with
  | nil => rfl
  | cons ty types ih =>
    rw [foldlM_cons, mentionsAll, foldlM_append, tsDeclarations, declareWith_eq, enter_eq]
    refine Option.bind_congr fun mid _ => ?_
    exact ih mid

end Source

theorem App.collect_settles (app : App) (out : Decls) {types : List Ty}
    (htypes : ∀ it ∈ mentionsAll types, it ∈ app.instances) :
    ∃ out', Settles (fun fuel => app.collect fuel types out) out' ∧
      Walked app.tsRef app.decl app.next (mentionsAll types) out out' := by
  obtain ⟨out', hsettles, hwalked⟩ := visitAll_settles app.tsRef app.decl app.closed htypes out
  refine ⟨out', ?_, hwalked⟩
  simp only [Source.collect_eq]
  exact hsettles

theorem App.generate_settles (app : App) : ∃ decls, Settles (app.generate app.router) decls ∧
      Covers app.tsRef app.decl app.next (mentionsAll app.router.types) decls := by
  have hrooted : ∀ types, (∀ ty ∈ types, ty ∈ app.router.types) →
      ∀ it ∈ mentionsAll types, it ∈ app.instances := by
    intro types htypes it hit
    obtain ⟨ty, hty, hmention⟩ := mem_mentionsAll.mp hit
    exact app.rooted ty (htypes ty hty) it hmention
  obtain ⟨first, hfirst, hwalked⟩ := app.collect_settles ∅
    (hrooted (app.router.collected.flatMap Signature.types) fun ty h => mem_append_left _ h)
  have hcovers := Covers.empty.walk hwalked
  have hmerged : ∀ done decls types, types ∈ app.router.apart → Covers app.tsRef app.decl app.next
        (mentionsAll (app.router.collected.flatMap Signature.types ++ done.flatten)) decls →
      ∃ after, Settles (fun fuel => (app.collect fuel types ∅).map (merge decls)) after ∧
        Covers app.tsRef app.decl app.next (mentionsAll
          (app.router.collected.flatMap Signature.types ++ (done ++ [types]).flatten)) after := by
    intro done decls types htypes hcovers
    obtain ⟨own, hown, hwalked⟩ := app.collect_settles ∅ (hrooted types fun ty h =>
      mem_append_right _ (mem_flatten.mpr ⟨types, htypes, h⟩))
    refine ⟨merge decls own, settles_map _ _ hown, ?_⟩
    rw [flatten_append, flatten_singleton, ← append_assoc, mentionsAll_append]
    exact hcovers.merge (Covers.empty.walk hwalked)
  obtain ⟨decls, hdecls, hcovered⟩ := settles_foldlM _
    (fun done types decls htypes hcovers => hmerged done decls types htypes hcovers)
    (show Covers app.tsRef app.decl app.next
      (mentionsAll (app.router.collected.flatMap Signature.types ++ ([] : List (List Ty)).flatten))
      first by rwa [flatten_nil, append_nil])
  exact ⟨decls, settles_bind _ hfirst hdecls, hcovered⟩

end Stakit.TsTypes
