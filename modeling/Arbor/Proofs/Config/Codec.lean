import Arbor.Config.Codec
import Arbor.Proofs.Engine.Building
import Arbor.Proofs.Json.Numeral
import Arbor.Proofs.Turtle.Depiction

/-!
# Written forms are read again

What is written of a value is read as this value when all its numbers are finite, and as nothing
otherwise.  `Rereads` says so of a writer and a reader, and those of a record have it from those of
its members.  A configuration that is valid has only finite numbers, so its text gives the
configuration back.
-/

set_option autoImplicit false

namespace Arbor

open Arbor.Geometry (Vec3)
open Turtle (Heading HeadingMode Cursor UnderflowPolicy)

/-! ## Records -/

namespace Json

theorem mapM_eq_some {α β : Type} {f : α → Option β} {g : α → β} {as : List α}
    (all : ∀ a ∈ as, f a = some (g a)) : as.mapM f = some (as.map g) := by
  induction as with
  | nil => rfl
  | cons a as ih =>
      rw [List.mapM_cons, all a List.mem_cons_self,
        ih fun b mem => all b (List.mem_cons_of_mem a mem)]
      rfl

def memberOf (field : String × Json) : Option String × Json := (some field.1, field.2)

theorem valuesOf_cons (name : String) (field : String × Json)
    (members : List (Option String × Json)) :
    valuesOf name (memberOf field :: members) =
      if field.1 = name then field.2 :: valuesOf name members else valuesOf name members := by
  unfold valuesOf memberOf
  by_cases same : field.1 = name <;> simp [same]

theorem valuesOf_of_notMem {name : String} {record : List (String × Json)}
    (absent : name ∉ record.map Prod.fst) : valuesOf name (record.map memberOf) = [] := by
  induction record with
  | nil => rfl
  | cons field record ih =>
      rw [List.map_cons, List.mem_cons, not_or] at absent
      rw [List.map_cons, valuesOf_cons, if_neg (Ne.symm absent.1), ih absent.2]

theorem valuesOf_of_mem {record : List (String × Json)} (distinct : (record.map Prod.fst).Nodup)
    {field : String × Json} (mem : field ∈ record) :
    valuesOf field.1 (record.map memberOf) = [field.2] := by
  induction record with
  | nil => exact nomatch mem
  | cons other record ih =>
      rw [List.map_cons, List.nodup_cons] at distinct
      rw [List.map_cons, valuesOf_cons]
      rcases List.mem_cons.mp mem with rfl | later
      · rw [if_pos rfl, valuesOf_of_notMem distinct.1]
      · have different : other.1 ≠ field.1 := fun same =>
          distinct.1 (same ▸ List.mem_map_of_mem later)
        rw [if_neg different, ih distinct.2 later]

theorem fields_ofFields (record : List (String × Json)) (distinct : (record.map Prod.fst).Nodup) :
    fields (record.map Prod.fst) (ofFields record) = some (record.map fun field => some field.2) := by
  have found : ∀ field ∈ record, member? (record.map memberOf) field.1 = some (some field.2) := by
    intro field mem
    rw [member?, valuesOf_of_mem distinct mem]
  change fields _ (object (record.map memberOf)) = _
  rw [fields, if_pos, List.mapM_map]
  · exact mapM_eq_some found
  · rw [List.all_map, List.all_eq_true]
    exact fun _ _ => rfl

theorem plain_ofFields (record : List (String × Json)) (plain : ∀ field ∈ record, field.2.Plain) :
    (ofFields record).Plain := by
  change PlainMembers (record.map memberOf)
  induction record with
  | nil => trivial
  | cons field record ih =>
      rw [List.forall_mem_cons] at plain
      exact ⟨plain.1, ih plain.2⟩

end Json

/-! ## Writers and readers -/

/-- What is written of a value is read as this value if it is finite, and as nothing otherwise. -/
structure Rereads {α : Type} (write : α → Json) (read : Json → Option α) (IsFinite : α → Prop)
    [DecidablePred IsFinite] : Prop where
  plain : ∀ a, (write a).Plain
  read_write : ∀ a, read (write a) = if IsFinite a then some a else none

theorem Rereads.ofText?_text {α : Type} {write : α → Json} {read : Json → Option α}
    {IsFinite : α → Prop} [DecidablePred IsFinite] (rereads : Rereads write read IsFinite) (a : α) :
    (Json.ofText? (write a).text >>= read) = if IsFinite a then some a else none := by
  rw [Json.ofText?_text (rereads.plain a)]
  exact rereads.read_write a

theorem ite_bind {α β : Type} (p : Prop) [Decidable p] (a : α) (f : α → Option β) :
    (if p then some a else none).bind f = if p then f a else none := by
  split <;> rfl

theorem Json.plain_ofString (s : String) : (Json.ofString s).Plain := trivial

theorem Turtle.HeadingMode.rereads :
    Rereads HeadingMode.toJson HeadingMode.ofJson? fun _ => True where
  plain _ := trivial
  read_write m := by cases m <;> rfl

theorem Turtle.UnderflowPolicy.rereads :
    Rereads UnderflowPolicy.toJson UnderflowPolicy.ofJson? fun _ => True where
  plain _ := trivial
  read_write p := by cases p <;> rfl

/-! ## Directions, headings, cursors and segments -/

def Turtle.Heading.IsFinite : Heading → Prop
  | .planar angle => angle.isFinite = true
  | .spatial direction => direction.IsFinite

instance : DecidablePred Heading.IsFinite
  | .planar angle => inferInstanceAs (Decidable (angle.isFinite = true))
  | .spatial direction => inferInstanceAs (Decidable direction.IsFinite)

def Turtle.Cursor.IsFinite (c : Cursor) : Prop := c.position.IsFinite ∧ c.heading.IsFinite

instance : DecidablePred Cursor.IsFinite := fun c =>
  inferInstanceAs (Decidable (c.position.IsFinite ∧ c.heading.IsFinite))

def Segment.IsFinite (s : Segment) : Prop :=
  s.start.IsFinite ∧ s.direction.IsFinite ∧ s.length.isFinite = true ∧ s.thickness.isFinite = true

instance : DecidablePred Segment.IsFinite := fun s => inferInstanceAs
  (Decidable (s.start.IsFinite ∧ s.direction.IsFinite ∧ s.length.isFinite = true ∧
    s.thickness.isFinite = true))

section Printing
variable {print : Float32 → Numeral} (faithful : Numeral.Faithful print)

include faithful

theorem Geometry.Vec3.rereads : Rereads (Vec3.toJson print) Vec3.ofJson? Vec3.IsFinite where
  plain v := ⟨Json.plain_ofSingle faithful v.x, Json.plain_ofSingle faithful v.y,
    Json.plain_ofSingle faithful v.z, trivial⟩
  read_write v := by
    rw [Vec3.toJson, Vec3.ofJson?]
    simp only [Json.single?_ofSingle faithful, Option.bind_eq_bind, ite_bind, Option.pure_def]
    split_ifs <;> simp_all [Vec3.IsFinite]

theorem Turtle.Heading.rereads :
    Rereads (Heading.toJson print) Heading.ofJson? Heading.IsFinite where
  plain h := by
    cases h with
    | planar angle => exact ⟨Json.plain_ofSingle faithful angle, trivial⟩
    | spatial direction => exact ⟨(Vec3.rereads faithful).plain direction, trivial⟩
  read_write h := by
    cases h with
    | planar angle =>
        change (Json.single? (.ofSingle print angle)).bind (fun x => some (Heading.planar x)) = _
        rw [Json.single?_ofSingle faithful, ite_bind]
        rfl
    | spatial direction =>
        change (Vec3.ofJson? (direction.toJson print)).bind (fun x => some (Heading.spatial x)) = _
        rw [(Vec3.rereads faithful).read_write, ite_bind]
        rfl

theorem Turtle.Cursor.rereads : Rereads (Cursor.toJson print) Cursor.ofJson? Cursor.IsFinite where
  plain c := Json.plain_ofFields _ (by
    simp [(Vec3.rereads faithful).plain, (Heading.rereads faithful).plain])
  read_write c := by
    have fields := Json.fields_ofFields
      [("position", c.position.toJson print), ("heading", c.heading.toJson print)]
      (by change ["position", "heading"].Nodup; decide)
    change (c.toJson print).fields ["position", "heading"] = some [some _, some _] at fields
    rw [Cursor.ofJson?, fields]
    simp only [Option.bind_eq_bind, Option.bind_some, Json.required,
      (Vec3.rereads faithful).read_write, (Heading.rereads faithful).read_write, ite_bind,
      Option.pure_def]
    split_ifs <;> simp_all [Cursor.IsFinite]

theorem Segment.rereads : Rereads (Segment.toJson print) Segment.ofJson? Segment.IsFinite where
  plain s := Json.plain_ofFields _ (by
    simp [(Vec3.rereads faithful).plain, Json.plain_ofSingle faithful])
  read_write s := by
    have fields := Json.fields_ofFields [("start", s.start.toJson print),
      ("direction", s.direction.toJson print), ("length", .ofSingle print s.length),
      ("thickness", .ofSingle print s.thickness)]
      (by change ["start", "direction", "length", "thickness"].Nodup; decide)
    change (s.toJson print).fields ["start", "direction", "length", "thickness"] =
      some [some _, some _, some _, some _] at fields
    rw [Segment.ofJson?, fields]
    simp only [Option.bind_eq_bind, Option.bind_some, Json.required,
      (Vec3.rereads faithful).read_write, Json.single?_ofSingle faithful, ite_bind, Option.pure_def]
    split_ifs <;> simp_all [Segment.IsFinite]

end Printing

/-! ## Configurations -/

namespace Config

def IsFinite (c : Config) : Prop :=
  c.segmentLength.isFinite = true ∧ c.segmentThickness.isFinite = true ∧
    c.angle.isFinite = true ∧ c.growthFactor.isFinite = true

instance : DecidablePred IsFinite := fun c => inferInstanceAs
  (Decidable (c.segmentLength.isFinite = true ∧ c.segmentThickness.isFinite = true ∧
    c.angle.isFinite = true ∧ c.growthFactor.isFinite = true))

theorem texts?_ofString (texts : List String) :
    texts? (.array (texts.map .ofString)) = some texts := by
  rw [texts?]
  change (texts.map Json.ofString).mapM Json.string? = _
  rw [List.mapM_map]
  exact (Json.mapM_eq_some (g := id) fun _ _ => rfl).trans (congrArg some (List.map_id texts))

theorem plain_texts (texts : List String) : (Json.array (texts.map .ofString)).Plain := by
  change Json.PlainElements _
  induction texts with
  | nil => trivial
  | cons text texts ih => exact ⟨trivial, ih⟩

section Printing
variable {print : Float32 → Numeral} (faithful : Numeral.Faithful print)

include faithful

theorem rereads : Rereads (toJson print) ofJson? IsFinite where
  plain c := Json.plain_ofFields _ (by
    simp [names, Json.plain_ofString, Json.plain_ofSingle faithful, Json.plain_ofNat, plain_texts,
      HeadingMode.rereads.plain, UnderflowPolicy.rereads.plain])
  read_write c := by
    have fields := Json.fields_ofFields (names.zip
      [.ofString c.axiomText, .array (c.rules.map .ofString), .ofSingle print c.segmentLength,
        .ofSingle print c.segmentThickness, .ofSingle print c.angle, .ofSingle print c.growthFactor,
        .ofNat c.maxIterations.toNat, c.heading.toJson, c.underflow.toJson,
        .ofNat c.maxStackDepth.toNat]) (by change names.Nodup; decide)
    change (c.toJson print).fields names = some [some _, some _, some _, some _, some _, some _, some _,
      some _, some _, some _] at fields
    have axiomText : Json.string? (.ofString c.axiomText) = some c.axiomText := rfl
    have iterations : Json.natBelow? UInt32.size (.ofNat c.maxIterations.toNat) =
        some c.maxIterations.toNat := Json.natBelow?_ofNat c.maxIterations.toNat_lt (by decide)
    have depth : Json.natBelow? UInt64.size (.ofNat c.maxStackDepth.toNat) =
        some c.maxStackDepth.toNat := Json.natBelow?_ofNat c.maxStackDepth.toNat_lt (by decide)
    rw [ofJson?, fields]
    simp only [Option.bind_eq_bind, Option.bind_some, Json.required, Json.optional,
      Json.single?_ofSingle faithful, texts?_ofString, HeadingMode.rereads.read_write,
      UnderflowPolicy.rereads.read_write, if_true, ite_bind, Option.pure_def, axiomText, iterations,
      depth, UInt32.ofNat_toNat, UInt64.ofNat_toNat]
    split_ifs <;> simp_all [IsFinite]

end Printing

theorem isFinite_of_valid {c : Config} (valid : c.validate = .ok ()) : c.IsFinite := by
  unfold validate at valid
  obtain ⟨_, settings, valid⟩ := exists_of_bind_eq_ok valid
  obtain ⟨_, growth, _⟩ := exists_of_bind_eq_ok valid
  obtain ⟨length, thickness⟩ := Turtle.Settings.sizes_of_validate settings
  unfold Turtle.Settings.validate at settings
  obtain ⟨_, _, settings⟩ := exists_of_bind_eq_ok settings
  obtain ⟨_, _, settings⟩ := exists_of_bind_eq_ok settings
  obtain ⟨_, angle, _⟩ := exists_of_bind_eq_ok settings
  exact ⟨length.1, thickness.1, checkFinite_ok angle, (Turtle.checkSize_ok growth).1⟩

theorem ofText_text {print : Float32 → Numeral} (faithful : Numeral.Faithful print) (c : Config) :
    ofText (c.text print) =
      if c.IsFinite then c.validate >>= fun _ => .ok c else .error .unreadable := by
  have read := (rereads faithful).ofText?_text c
  rw [ofText, text, read]
  by_cases finite : c.IsFinite
  · rw [if_pos finite, if_pos finite]
    rfl
  · rw [if_neg finite, if_neg finite]

end Config

/-- A configuration that is valid is read from its text as it was.  Segments, cursors and headings are
read from theirs if all their numbers are finite, and otherwise not at all; modes and policies are
always read. -/
theorem texts_read_back (print : Float32 → Numeral) (faithful : Numeral.Faithful print) :
    (∀ c : Config, c.validate = .ok () → Config.ofText (c.text print) = .ok c) ∧
      (∀ s : Segment, (Json.ofText? (s.toJson print).text >>= Segment.ofJson?) =
        if s.IsFinite then some s else none) ∧
      (∀ c : Cursor, (Json.ofText? (c.toJson print).text >>= Cursor.ofJson?) =
        if c.IsFinite then some c else none) ∧
      (∀ h : Heading, (Json.ofText? (h.toJson print).text >>= Heading.ofJson?) =
        if h.IsFinite then some h else none) ∧
      (∀ m : HeadingMode, (Json.ofText? m.toJson.text >>= HeadingMode.ofJson?) = some m) ∧
      ∀ p : UnderflowPolicy, (Json.ofText? p.toJson.text >>= UnderflowPolicy.ofJson?) = some p := by
  refine ⟨fun c valid => ?_, (Segment.rereads faithful).ofText?_text,
    (Cursor.rereads faithful).ofText?_text, (Heading.rereads faithful).ofText?_text, fun m => ?_,
    fun p => ?_⟩
  · rw [Config.ofText_text faithful, if_pos (Config.isFinite_of_valid valid), valid]
    rfl
  · rw [HeadingMode.rereads.ofText?_text m, if_pos trivial]
  · rw [UnderflowPolicy.rereads.ofText?_text p, if_pos trivial]

/-- Letters beyond the first ones, a tab, zero with a sign and the largest counters. -/
theorem texts_read_back_unusual :
    let c : Config := { Config.tree with
      axiomText := "F\tλ", rules := ["λ -> F [ + λ ]"], angle := -0.0, maxIterations := 4294967295,
      heading := .planar, underflow := .ignore, maxStackDepth := 18446744073709551615 }
    c.validate = .ok () ∧ Config.ofText (c.text Numeral.ofSingle) = .ok c := by
  intro c
  have valid : c.validate = .ok () := by decide +kernel
  exact ⟨valid, (texts_read_back Numeral.ofSingle Numeral.faithful_ofSingle).1 c valid⟩

example :
    ((Segment.mk ⟨0.1, -0.0, 1e-7⟩ ⟨0, 1, 0⟩ 16777216 3.4028235e38).toJson Numeral.ofSingle).text =
      "\x7b\"start\":[0.1,-0.0,1e-7],\"direction\":[0.0,1.0,0.0],\"length\":16777216.0," ++
        "\"thickness\":3.4028235e38\x7d" := by
  decide +kernel

end Arbor
