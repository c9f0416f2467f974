import Mathlib.Data.List.Forall2
import Mathlib.Data.List.Induction
import AvroTypings.Proofs.Hoisting

/-!
# Names by paths

A record or an enum without a name is named after the place where it stands. Resolution hands a
context down from each node to its parts and starts over at a record with a name. This file gives
the names in closed form, by the path from the root of a schema to the node: the nearest record with
a name on the path, or the context of the root, and behind it what each further step adds.

A path goes through the schema as it stands. A step into a member of a union adds nothing, so a name
does not tell whether the union was still there when the node was resolved.

## Main definitions

* `Edge`, `Schema.Leads`: steps into a schema, and the paths made of them.
* `NearestNamed`: the nearest record with a name on a path, and the rest of the path from there.
* `NamedByPath`: the name of a node by its path.
* `Schema.placesOf`: what can be read off the nodes of a schema, in post-order and with the paths to
  them.
* `Schema.sitePaths`: the records and enums among the nodes.

## Main results

* `contextAt_of_nearestNamed`, `namedByPath_iff`: contexts and names in closed form.
* `Schema.mem_placesOf_iff`, `Schema.nodup_placesOf`: every path is listed, once.
* `Schema.exists_mem_sitesIn_iff`: the sites of a schema are the records and enums that occur in it.
* `Schema.hoisted_named_by_paths`: the names of the declarations of a schema.
-/

namespace AvroTypings

/-! ### Paths -/

/-- A step from a node of a schema to one of its parts. A step into a field tells the name of the
record, if it has one. -/
inductive Edge where
  | member (index : Nat)
  | items
  | values
  | field (record : Option String) (index : Nat) (name : String)

namespace Edge

/-- What a step adds to a name. -/
def token : Edge → String
  | member _ => ""
  | items => "Item"
  | values => "Value"
  | field _ _ name => "_" ++ name

/-- The name of the record that a step starts from. -/
def leaves : Edge → Option String
  | field record _ _ => record
  | _ => none

/-- The context behind a step, from the one before it. -/
def extend (context : String) (edge : Edge) : String := edge.leaves.getD context ++ edge.token

/-- The number of parts that stand to the left of the one that a step enters. -/
def index : Edge → Nat
  | member index => index
  | field _ index _ => index
  | items => 0
  | values => 0

end Edge

/-- The context at the end of a path. -/
def contextAt (context : String) (path : List Edge) : String := path.foldl Edge.extend context

namespace Schema

/-- The parts of a node, with the steps to them. -/
def parts : Schema → List (Edge × Schema)
  | .union members => members.zipIdx.map fun member => (.member member.2, member.1)
  | .array items => [(.items, items)]
  | .map values => [(.values, values)]
  | .record header fields =>
    fields.zipIdx.map fun field => (.field header.name field.2 field.1.name, field.1.schema)
  | _ => []

/-- A path leads from a schema to a node of it. -/
inductive Leads : Schema → List Edge → Schema → Prop
  | here {schema : Schema} : Leads schema [] schema
  | step {schema part node : Schema} {edge : Edge} {path : List Edge}
      (hpart : (edge, part) ∈ schema.parts) (h : Leads part path node) :
      Leads schema (edge :: path) node

end Schema

/-- The name of the nearest record with a name on a path, and the path from this record on; or the
context and the whole path, if no record on the path has a name. -/
inductive NearestNamed (context : String) (path : List Edge) : String → List Edge → Prop
  | record {front tail : List Edge} {edge : Edge} {name : String}
      (hpath : path = front ++ edge :: tail) (hname : edge.leaves = some name)
      (htail : ∀ later ∈ tail, later.leaves = none) : NearestNamed context path name (edge :: tail)
  | root (hpath : ∀ edge ∈ path, edge.leaves = none) : NearestNamed context path context path

/-- The name of a record or enum at the end of a path: its own or, if it has none, the nearest name
on the path with what each step from there on adds, and a suffix for an enum. -/
inductive NamedByPath (context : String) (path : List Edge) (node : Schema) : String → Prop
  | explicit {name : String} (h : node.ownName = some name) : NamedByPath context path node name
  | derived {base : String} {tail : List Edge} (hanonymous : node.ownName = none)
      (h : NearestNamed context path base tail) :
      NamedByPath context path node
        (base ++ String.join (tail.map Edge.token) ++ if node.isEnum then "Enum" else "")

/-! ### Contexts in closed form -/

section NearestNamed

variable {context base : String} {path tail : List Edge} {edge : Edge}

/-- The nearest name on a path with one more step. -/
theorem nearestNamed_concat_iff :
    NearestNamed context (path ++ [edge]) base tail ↔
      edge.leaves = some base ∧ tail = [edge] ∨
        edge.leaves = none ∧
          ∃ front, NearestNamed context path base front ∧ tail = front ++ [edge] := by
  constructor
  · rintro (⟨hpath, hname, htail⟩ | hpath)
    · next front rest first =>
      rcases List.eq_nil_or_concat rest with rfl | ⟨middle, last, rfl⟩
      · obtain ⟨rfl, hedge⟩ := List.append_inj' hpath rfl
        cases hedge
        exact .inl ⟨hname, rfl⟩
      · rw [List.concat_eq_append] at hpath htail ⊢
        rw [← List.cons_append, ← List.append_assoc] at hpath
        obtain ⟨rfl, hedge⟩ := List.append_inj' hpath rfl
        cases hedge
        obtain ⟨hmiddle, hlast⟩ := List.forall_mem_append.mp htail
        exact .inr ⟨hlast _ List.mem_cons_self, _, .record rfl hname hmiddle, rfl⟩
    · obtain ⟨hfront, hlast⟩ := List.forall_mem_append.mp hpath
      exact .inr ⟨hlast _ List.mem_cons_self, path, .root hfront, rfl⟩
  · rintro (⟨hname, rfl⟩ | ⟨hnone, front, hfront, rfl⟩)
    · exact .record rfl hname (by simp)
    · have hlast : ∀ later ∈ [edge], later.leaves = none := by simpa using hnone
      cases hfront with
      | @record before rest first _ hpath hname htail =>
        have hlonger : path ++ [edge] = before ++ first :: (rest ++ [edge]) := by simp [hpath]
        exact .record hlonger hname (List.forall_mem_append.mpr ⟨htail, hlast⟩)
      | root hpath => exact .root (List.forall_mem_append.mpr ⟨hpath, hlast⟩)

theorem contextAt_concat :
    contextAt context (path ++ [edge]) =
      edge.leaves.getD (contextAt context path) ++ edge.token := by
  rw [contextAt, List.foldl_append]
  rfl

/-- A context is the nearest name with what each step from there on adds. -/
theorem contextAt_of_nearestNamed (h : NearestNamed context path base tail) :
    contextAt context path = base ++ String.join (tail.map Edge.token) := by
  induction path using List.reverseRecOn generalizing base tail with
  | nil =>
    cases h with
    | record hpath => simp at hpath
    | root => simp [contextAt]
  | append_singleton path edge ih =>
    rw [contextAt_concat]
    rcases nearestNamed_concat_iff.mp h with ⟨hname, rfl⟩ | ⟨hnone, front, hfront, rfl⟩
    · simp [hname]
    · simp [hnone, ih hfront, String.append_assoc]

theorem exists_nearestNamed (context : String) (path : List Edge) :
    ∃ base tail, NearestNamed context path base tail := by
  induction path using List.reverseRecOn with
  | nil => exact ⟨context, [], .root (by simp)⟩
  | append_singleton path edge ih =>
    cases hname : edge.leaves with
    | some name => exact ⟨name, [edge], nearestNamed_concat_iff.mpr (.inl ⟨hname, rfl⟩)⟩
    | none =>
      obtain ⟨base, front, hfront⟩ := ih
      exact ⟨base, _, nearestNamed_concat_iff.mpr (.inr ⟨hname, front, hfront, rfl⟩)⟩

/-- The name of a node by its path, from the context at the end of the path. -/
theorem namedByPath_iff {node : Schema} {name : String} :
    NamedByPath context path node name ↔
      name = node.ownName.getD (contextAt context path ++ if node.isEnum then "Enum" else "") := by
  cases hown : node.ownName with
  | some own =>
    constructor
    · rintro (hname | ⟨hanonymous, -⟩)
      · exact Option.some.inj (hname.symm.trans hown)
      · cases hanonymous.symm.trans hown
    · rintro rfl
      exact .explicit hown
  | none =>
    constructor
    · rintro (hname | ⟨-, hnearest⟩)
      · cases hname.symm.trans hown
      · rw [Option.getD_none, contextAt_of_nearestNamed hnearest]
    · rintro rfl
      obtain ⟨base, tail, hnearest⟩ := exists_nearestNamed context path
      rw [Option.getD_none, contextAt_of_nearestNamed hnearest]
      exact .derived hown hnearest

end NearestNamed

/-! ### Places -/

section Places

variable {α : Type}

/-- Places in a part of a schema, seen from the schema itself. -/
def behind (edge : Edge) (places : List (List Edge × α)) : List (List Edge × α) :=
  places.map fun place => (edge :: place.1, place.2)

theorem mem_behind {edge : Edge} {places : List (List Edge × α)} {path : List Edge} {a : α} :
    (path, a) ∈ behind edge places ↔ ∃ rest, path = edge :: rest ∧ (rest, a) ∈ places := by
  rw [behind, List.mem_map]
  constructor
  · rintro ⟨⟨rest, other⟩, hmem, heq⟩
    cases heq
    exact ⟨rest, rfl, hmem⟩
  · rintro ⟨rest, rfl, hmem⟩
    exact ⟨_, hmem, rfl⟩

namespace Schema

theorem sizeOf_lt_of_mem_parts {schema : Schema} {part : Edge × Schema}
    (h : part ∈ schema.parts) : sizeOf part.2 < sizeOf schema := by
  cases schema with
  | union members =>
    obtain ⟨member, hmem, rfl⟩ := List.mem_map.mp h
    have := List.sizeOf_lt_of_mem (List.fst_mem_of_mem_zipIdx hmem)
    simp only [union.sizeOf_spec]
    omega
  | array items =>
    cases List.mem_singleton.mp h
    simp
  | map values =>
    cases List.mem_singleton.mp h
    simp
  | record header fields =>
    obtain ⟨field, hmem, rfl⟩ := List.mem_map.mp h
    have := sizeOf_schema_lt (List.fst_mem_of_mem_zipIdx hmem)
    simp only [record.sizeOf_spec]
    omega
  | _ => cases h

/-- Induction over a schema through its parts. -/
@[elab_as_elim]
theorem parts_induction {motive : Schema → Prop}
    (node : ∀ schema, (∀ part ∈ schema.parts, motive part.2) → motive schema) :
    ∀ schema, motive schema := by
  intro schema
  induction hsize : sizeOf schema using Nat.strongRecOn generalizing schema with
  | _ size ih =>
    subst hsize
    exact node schema fun part hpart => ih _ (sizeOf_lt_of_mem_parts hpart) part.2 rfl

/-- The parts of a node stand in the order of the steps to them. -/
theorem pairwise_index_parts (schema : Schema) :
    schema.parts.Pairwise fun a b => a.1.index < b.1.index := by
  have hindices {α : Type} (l : List α) : l.zipIdx.Pairwise fun a b => a.2 < b.2 := by
    rw [← List.pairwise_map, List.zipIdx_map_snd]
    exact List.pairwise_lt_range'
  cases schema with
  | union members => exact List.pairwise_map.mpr (hindices members)
  | record header fields => exact List.pairwise_map.mpr (hindices fields)
  | array items => exact List.pairwise_singleton ..
  | map values => exact List.pairwise_singleton ..
  | _ => exact .nil

/-- What can be read off the nodes of a schema, in post-order and with the paths to the nodes. -/
def placesOf (read : Schema → Option α) (schema : Schema) : List (List Edge × α) :=
  (schema.parts.attach.flatMap fun ⟨part, _⟩ => behind part.1 (placesOf read part.2))
    ++ (read schema).toList.map ([], ·)
termination_by sizeOf schema
decreasing_by exact sizeOf_lt_of_mem_parts ‹_›

variable {read : Schema → Option α}

theorem placesOf_eq (schema : Schema) :
    schema.placesOf read = (schema.parts.flatMap fun part => behind part.1 (part.2.placesOf read))
      ++ (read schema).toList.map ([], ·) := by
  have hattach (f : Edge × Schema → List (List Edge × α)) :
      (schema.parts.attach.flatMap fun part => f part.1) = schema.parts.flatMap f := by
    rw [← List.flatMap_map, List.attach_map_subtype_val]
  rw [placesOf]
  exact congrArg (· ++ _) (hattach fun part => behind part.1 (part.2.placesOf read))

/-- Every node that something can be read off is listed with every path to it. -/
theorem mem_placesOf_iff {schema : Schema} {path : List Edge} {a : α} :
    (path, a) ∈ schema.placesOf read ↔ ∃ node, Leads schema path node ∧ read node = some a := by
  constructor
  · intro hmem
    induction schema using parts_induction generalizing path with
    | node schema ih =>
      rw [placesOf_eq, List.mem_append, List.mem_flatMap, List.mem_map] at hmem
      rcases hmem with ⟨part, hpart, hmem⟩ | ⟨own, hown, heq⟩
      · obtain ⟨rest, rfl, hrest⟩ := mem_behind.mp hmem
        obtain ⟨node, hleads, hread⟩ := ih part hpart hrest
        exact ⟨node, .step hpart hleads, hread⟩
      · cases heq
        exact ⟨schema, .here, Option.mem_toList.mp hown⟩
  · rintro ⟨node, hleads, hread⟩
    induction hleads with
    | here =>
      rw [placesOf_eq]
      refine List.mem_append_right _ (List.mem_map.mpr ⟨a, ?_, rfl⟩)
      exact Option.mem_toList.mpr hread
    | step hpart _ ih =>
      rw [placesOf_eq]
      refine List.mem_append_left _ (List.mem_flatMap.mpr ⟨_, hpart, ?_⟩)
      exact mem_behind.mpr ⟨_, rfl, ih hread⟩

/-- No path is listed twice. -/
theorem nodup_placesOf (schema : Schema) : ((schema.placesOf read).map Prod.fst).Nodup := by
  induction schema using parts_induction with
  | node schema ih =>
    rw [List.Nodup, List.pairwise_map, placesOf_eq, List.pairwise_append, List.pairwise_flatMap]
    refine ⟨⟨fun part hpart => ?_, ?_⟩, ?_, ?_⟩
    · refine List.pairwise_map.mpr ?_
      refine (List.pairwise_map.mp (ih part hpart)).imp fun hne heq => hne ?_
      exact (List.cons.inj heq).2
    · -- two parts are not entered by the same step
      refine (pairwise_index_parts schema).imp fun hlt x hx y hy heq => Nat.ne_of_lt hlt ?_
      obtain ⟨rest, hrest, -⟩ := mem_behind.mp hx
      obtain ⟨rest', hrest', -⟩ := mem_behind.mp hy
      exact congrArg Edge.index (List.cons.inj (hrest.symm.trans (heq.trans hrest'))).1
    · cases read schema with
      | none => exact .nil
      | some own => exact List.pairwise_singleton ..
    · intro x hx y hy heq
      obtain ⟨part, hpart, hx⟩ := List.mem_flatMap.mp hx
      obtain ⟨rest, hrest, -⟩ := mem_behind.mp hx
      obtain ⟨own, -, rfl⟩ := List.mem_map.mp hy
      cases hrest.symm.trans heq

end Schema

end Places

namespace Schema

/-! ### The paths to records and enums -/

/-- Whether a node is a record or an enum. -/
def isSite (schema : Schema) : Bool := schema.isRecord || schema.isEnum

/-- The records and enums of a schema in post-order, with the paths to them. -/
def sitePaths (schema : Schema) : List (List Edge × Schema) :=
  schema.placesOf (Option.guard isSite)

theorem mem_sitePaths_iff {schema node : Schema} {path : List Edge} :
    (path, node) ∈ schema.sitePaths ↔ Leads schema path node ∧ node.isSite = true := by
  simp only [sitePaths, mem_placesOf_iff, Option.guard_eq_some_iff]
  constructor
  · rintro ⟨_, hleads, rfl, hsite⟩
    exact ⟨hleads, hsite⟩
  · rintro ⟨hleads, hsite⟩
    exact ⟨node, hleads, rfl, hsite⟩

/-! ### The names of declarations -/

theorem flatMap_zipIdx {α β : Type} (l : List α) (f : α → List β) :
    (l.zipIdx.flatMap fun a => f a.1) = l.flatMap f := by
  rw [← List.flatMap_map, List.zipIdx_map_fst]

/-- The sites of a schema are those of its parts, each in the context behind the step to it, and at
the end the schema itself if it is a record or an enum. -/
theorem sitesIn_eq_parts (schema : Schema) (context : String) (outer : Option String) :
    ∃ inner own, schema.sitesIn context outer =
        (schema.parts.flatMap fun part => part.2.sitesIn (part.1.extend context) inner) ++ own ∧
      own.map (fun site => (site.context, site.schema)) =
        (Option.guard isSite schema).toList.map (context, ·) := by
  cases schema with
  | union members =>
    refine ⟨outer, [], ?_, rfl⟩
    have hcontext (index : Nat) : (Edge.member index).extend context = context :=
      String.append_empty
    simp only [sitesIn, listSites_eq_flatMap, parts, List.flatMap_map, hcontext, List.append_nil]
    exact (flatMap_zipIdx members fun member => member.sitesIn context outer).symm
  | array items =>
    refine ⟨outer, [], ?_, rfl⟩
    rw [sitesIn, parts, List.flatMap_singleton, List.append_nil]
    rfl
  | map values =>
    refine ⟨outer, [], ?_, rfl⟩
    rw [sitesIn, parts, List.flatMap_singleton, List.append_nil]
    rfl
  | enum header symbols =>
    exact ⟨outer, [⟨context, outer, header, .symbols symbols⟩], rfl, rfl⟩
  | record header fields =>
    refine ⟨header.scopeIn outer, [⟨context, outer, header, .fields fields⟩], ?_, rfl⟩
    have hcontext (index : Nat) (name : String) :
        (Edge.field header.name index name).extend context =
          propertyContext (header.name.getD context) name := String.append_assoc.symm
    simp only [sitesIn, fieldSites_eq_flatMap, parts, List.flatMap_map, hcontext]
    exact congrArg (· ++ _) (flatMap_zipIdx fields fun field =>
      field.schema.sitesIn (propertyContext (header.name.getD context) field.name) _).symm
  | primitive type => exact ⟨outer, [], rfl, rfl⟩
  | named name => exact ⟨outer, [], rfl, rfl⟩
  | unknown value => exact ⟨outer, [], rfl, rfl⟩

/-- The sites of a schema stand at the ends of the listed paths, in the contexts that the paths lead
to. -/
theorem map_sitesIn_eq_map_sitePaths (schema : Schema) (context : String) (outer : Option String) :
    (schema.sitesIn context outer).map (fun site => (site.context, site.schema)) =
      schema.sitePaths.map fun place => (contextAt context place.1, place.2) := by
  induction schema using parts_induction generalizing context outer with
  | node schema ih =>
    obtain ⟨inner, own, hsites, hown⟩ := schema.sitesIn_eq_parts context outer
    rw [hsites, sitePaths, placesOf_eq, List.map_append, List.map_append, hown, List.map_flatMap,
      List.map_flatMap, List.map_map]
    refine congrArg (· ++ _) (List.flatMap_congr fun part hpart => ?_)
    rw [ih part hpart, behind, List.map_map]
    rfl

/-! ### Sites as nodes -/

theorem exists_mem_zipIdx_iff {α : Type} {l : List α} {a : α} :
    (∃ index, (a, index) ∈ l.zipIdx) ↔ a ∈ l := by
  conv_rhs => rw [← List.zipIdx_map_fst 0 l, List.mem_map]
  simp only [Prod.exists, exists_and_right, exists_eq_right]

/-- What occurs in a schema is the schema or occurs in a part of it. -/
theorem occurs_iff_parts {schema node : Schema} :
    Occurs node schema ↔ node = schema ∨ ∃ part ∈ schema.parts, Occurs node part.2 := by
  cases schema with
  | union members => simp [parts, exists_mem_zipIdx_iff]
  | record header fields => simp [parts, exists_mem_zipIdx_iff]
  | _ => simp [parts]

/-- A schema occurs in another one exactly if a path leads to it. -/
theorem occurs_iff_exists_leads {schema node : Schema} :
    Occurs node schema ↔ ∃ path, Leads schema path node := by
  constructor
  · intro hoccurs
    induction schema using parts_induction with
    | node schema ih =>
      rcases occurs_iff_parts.mp hoccurs with rfl | ⟨part, hpart, hoccurs⟩
      · exact ⟨[], .here⟩
      · obtain ⟨path, hleads⟩ := ih part hpart hoccurs
        exact ⟨part.1 :: path, .step hpart hleads⟩
  · rintro ⟨path, hleads⟩
    induction hleads with
    | here => exact .self
    | step hpart _ ih => exact occurs_iff_parts.mpr (.inr ⟨_, hpart, ih⟩)

/-- The sites of a schema are the records and enums that occur in it. -/
theorem exists_mem_sitesIn_iff {schema node : Schema} (context : String) (outer : Option String) :
    (∃ site ∈ schema.sitesIn context outer, site.schema = node) ↔
      Occurs node schema ∧ node.isSite = true := by
  have hnodes := congrArg (List.map Prod.snd) (schema.map_sitesIn_eq_map_sitePaths context outer)
  rw [List.map_map, List.map_map] at hnodes
  calc (∃ site ∈ schema.sitesIn context outer, site.schema = node)
    _ ↔ node ∈ schema.sitePaths.map Prod.snd := by
      rw [← List.mem_map]
      exact Eq.to_iff (congrArg (node ∈ ·) hnodes)
    _ ↔ ∃ path, (path, node) ∈ schema.sitePaths := by simp
    _ ↔ Occurs node schema ∧ node.isSite = true := by
      rw [occurs_iff_exists_leads, ← exists_and_right]
      exact exists_congr fun path => mem_sitePaths_iff

end Schema

/-- A declaration of the kind that a node asks for: the symbols of an enum, or a line for each field
of a record. -/
inductive DeclaredFrom : Schema → Declaration → Prop
  | enum {header : Header} {symbols : List String} {name : String} :
      DeclaredFrom (.enum header symbols) (.enum name symbols)
  | record {header : Header} {fields : List Field} {name : String} {lines : List String}
      (h : lines.length = fields.length) :
      DeclaredFrom (.record header fields) (.interface name lines)

theorem Site.declaredFrom (site : Site) : DeclaredFrom site.schema site.declaration := by
  obtain ⟨context, outer, header, body⟩ := site
  cases body with
  | symbols symbols => exact .enum
  | fields fields => exact .record (List.length_map ..)

theorem Site.name_eq_getD (site : Site) :
    site.name = site.schema.ownName.getD
      (site.context ++ if site.schema.isEnum then "Enum" else "") := by
  obtain ⟨context, outer, header, body⟩ := site
  cases body with
  | symbols symbols => rfl
  | fields fields => exact congrArg header.name.getD String.append_empty.symm

/-- **Names by paths.** Resolving a schema appends one declaration for each path to a record or an
enum, in post-order. Each has the name that the path gives to the node: its own name, or the name of
the nearest record with a name on the path, or else the context, followed by what the steps from
there on add. -/
theorem Schema.hoisted_named_by_paths (schema : Schema) (context : String)
    (out : List Declaration) :
    (schema.sitePaths.map Prod.fst).Nodup ∧
    (∀ path node, (path, node) ∈ schema.sitePaths ↔
      Leads schema path node ∧ (node.isRecord = true ∨ node.isEnum = true)) ∧
    ∃ hoisted, (schema.resolve context out).2 = out ++ hoisted ∧
      List.Forall₂ (fun declaration place => DeclaredFrom place.2 declaration ∧
        ∀ name, declaration.name = name ↔ NamedByPath context place.1 place.2 name)
        hoisted schema.sitePaths := by
  refine ⟨schema.nodup_placesOf, fun path node => ?_, _,
    congrArg Prod.snd (schema.hoists context none out), ?_⟩
  · rw [mem_sitePaths_iff, isSite, Bool.or_eq_true]
  · have hsites := schema.map_sitesIn_eq_map_sitePaths context none
    rw [← List.forall₂_eq_eq_eq, List.forall₂_map_left_iff, List.forall₂_map_right_iff] at hsites
    refine List.forall₂_map_left_iff.mpr (hsites.imp fun site place heq => ?_)
    obtain ⟨hcontext, hnode⟩ := Prod.mk.inj heq
    refine ⟨hnode ▸ site.declaredFrom, fun name => ?_⟩
    rw [namedByPath_iff, Site.name_declaration, Site.name_eq_getD, hcontext, hnode]
    exact eq_comm

end AvroTypings
