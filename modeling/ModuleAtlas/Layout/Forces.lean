import ModuleAtlas.Layout.Zones

/-!
# Forces

The core of a graph is relaxed like a physical system. Bodies at the two ends of a link pull at each
other, all bodies push each other away, and bodies that come too close are driven apart. After each
tick the whole is moved to the middle of its zone, and no body may leave the zone.

* `ForceField.attract`, `repel` and `collide` change velocities only;
* `ForceField.tick` is one step of the simulation, `ForceField.run` all of them.
-/

namespace ModuleAtlas

/-- A moving point. -/
structure Body (α : Type) where
  x : α
  y : α
  vx : α
  vy : α
deriving Repr, Inhabited

/-- What the bodies move in. -/
structure ForceField (α : Type) where
  settings : LayoutSettings α
  zone : Zone α
  /-- Which bodies are linked. -/
  links : List (Nat × Nat)
  /-- How many links each body is in. -/
  degree : Array Nat
deriving Repr, Inhabited

variable {α : Type} [Scalar α]

namespace Body

/-- A body at rest. -/
def rest (x y : α) : Body α := ⟨x, y, Scalar.ofNat 0, Scalar.ofNat 0⟩

@[inline] def position (b : Body α) : Position α := ⟨b.x, b.y⟩

/-- The body with its velocity changed. -/
@[inline] def push (b : Body α) (dvx dvy : α) : Body α :=
  { b with vx := b.vx + dvx, vy := b.vy + dvy }

/-- The body with its velocity changed against the given direction. -/
@[inline] def pull (b : Body α) (dvx dvy : α) : Body α :=
  { b with vx := b.vx - dvx, vy := b.vy - dvy }

/-- Moves the body with its velocity, of which a part is lost. -/
@[inline] def drift (b : Body α) : Body α :=
  let vx := b.vx * (1.0 - 0.4)
  let vy := b.vy * (1.0 - 0.4)
  ⟨b.x + vx, b.y + vy, vx, vy⟩

end Body

namespace ForceField

/-- A distance that counts as none. -/
@[inline] def epsilon : α := 1e-9

/-- In which direction, and how far, one of two bodies at one place is seen from the other. -/
@[inline] def jiggle (i j : Nat) : α :=
  (if i < j then -1.0 else 1.0) * 1e-6 * Scalar.ofNat (1 + i + j)

/-- The pull of a link on its ends; a body in many links gives way less. -/
@[specialize] def attractAlong (f : ForceField α) (alpha : α) (bodies : Array (Body α))
    (link : Nat × Nat) : Array (Body α) :=
  let (s, t) := link
  let a := bodies.getD s default
  let b := bodies.getD t default
  let degreeOf (i : Nat) : Nat := f.degree.getD i 0
  let bias := Scalar.ofNat (degreeOf s) / Scalar.ofNat (degreeOf s + degreeOf t)
  let dx := (b.x + b.vx) - (a.x + a.vx)
  let dy := (b.y + b.vy) - (a.y + a.vy)
  let l := Scalar.max (Scalar.hypot dx dy) epsilon
  let k := (l - f.settings.linkDistance) / l * alpha * f.settings.linkStrength
  let dx := dx * k
  let dy := dy * k
  (bodies.setIfInBounds t (b.pull (dx * bias) (dy * bias))).setIfInBounds s
    (a.push (dx * (1.0 - bias)) (dy * (1.0 - bias)))

/-- All links pull, one after the other. -/
@[specialize] def attract (f : ForceField α) (alpha : α) (bodies : Array (Body α)) :
    Array (Body α) :=
  f.links.foldl (attractAlong f alpha) bodies

/-- How the charge of body `j` changes the velocity of body `i`, for the vector from `i` to `j`;
`none` if they are too far apart. -/
@[specialize] def charge? (f : ForceField α) (alpha : α) (i j : Nat) (dx dy : α) :
    Option (α × α) :=
  let nearest := f.settings.chargeDistanceMin * f.settings.chargeDistanceMin
  let farthest := f.settings.chargeDistanceMax * f.settings.chargeDistanceMax
  let l := dx * dx + dy * dy
  if Scalar.le farthest l then none
  else
    let touching := Scalar.lt l epsilon
    let dx := if touching then jiggle i j else dx
    let l := if touching then dx * dx else l
    let l := if Scalar.lt l nearest then Scalar.sqrt (nearest * l) else l
    let w := f.settings.chargeStrength * alpha / l
    some (dx * w, dy * w)

/-- The push of body `j` on body `i`. -/
@[inline] def repelFrom (f : ForceField α) (alpha : α) (places : Array (Body α)) (i : Nat)
    (b : Body α) (j : Nat) : Body α :=
  if i = j then b
  else
    let here := places.getD i default
    let there := places.getD j default
    match charge? f alpha i j (there.x - here.x) (there.y - here.y) with
    | some (dvx, dvy) => b.push dvx dvy
    | none => b

/-- All bodies push each other. -/
@[specialize] def repel (f : ForceField α) (alpha : α) (bodies : Array (Body α)) :
    Array (Body α) :=
  let all := List.range bodies.size
  bodies.mapIdx fun i b => all.foldl (repelFrom f alpha bodies i) b

/-- Drives two bodies apart that come too close. -/
@[specialize] def collidePair (f : ForceField α) (i : Nat) (bodies : Array (Body α)) (j : Nat) :
    Array (Body α) :=
  let reach := f.settings.minSeparation
  let a := bodies.getD i default
  let b := bodies.getD j default
  let dx := (a.x + a.vx) - (b.x + b.vx)
  let dy := (a.y + a.vy) - (b.y + b.vy)
  let l := Scalar.hypot dx dy
  if Scalar.le reach l then bodies
  else
    let touching := Scalar.lt l epsilon
    let dx := if touching then jiggle i j else dx
    let l := if touching then Scalar.abs dx else l
    let k := (reach - l) / l * 0.5
    (bodies.setIfInBounds i (a.push (dx * k) (dy * k))).setIfInBounds j
      (b.pull (dx * k) (dy * k))

/-- Drives all pairs apart that come too close, one after the other. -/
@[specialize] def collide (f : ForceField α) (bodies : Array (Body α)) : Array (Body α) :=
  (List.range bodies.size).foldl
    (fun bodies i => (List.range' (i + 1) (bodies.size - (i + 1))).foldl (collidePair f i) bodies)
    bodies

/-- Moves all bodies so that their mean comes closer to the centre of the zone. -/
@[specialize] def recenter (f : ForceField α) (bodies : Array (Body α)) : Array (Body α) :=
  let n := Scalar.ofNat bodies.size
  let mx := Scalar.sum (bodies.toList.map (·.x)) / n
  let my := Scalar.sum (bodies.toList.map (·.y)) / n
  let sx := (f.zone.center.x - mx) * f.settings.centerStrength
  let sy := (f.zone.center.y - my) * f.settings.centerStrength
  bodies.map fun b => { b with x := b.x + sx, y := b.y + sy }

/-- How far bodies stay from the border of the zone, for its extent in one direction. -/
def inset (f : ForceField α) (extent : α) : α :=
  Scalar.min (f.settings.minSeparation / 2.0) (extent / 2.0)

/-- The body at the nearest place of the zone; `none` if the bounds of the zone are no range. -/
@[specialize] def confine? (f : ForceField α) (b : Body α) : Option (Body α) :=
  let z := f.zone
  let ix := f.inset z.width
  let iy := f.inset z.height
  match Scalar.clamp? (z.x + ix) (z.x + z.width - ix) b.x,
      Scalar.clamp? (z.y + iy) (z.y + z.height - iy) b.y with
  | some x, some y => some { b with x, y }
  | _, _ => none

/-- One step of the simulation, at the given heat. -/
@[specialize] def tick (f : ForceField α) (alpha : α) (bodies : Array (Body α)) :
    Option (Array (Body α)) :=
  (f.recenter ((f.collide (f.repel alpha (f.attract alpha bodies))).map Body.drift)).mapM f.confine?

/-- The part of the heat that is lost in each of so many ticks, of which a thousandth is left. -/
def cooling (ticks : Nat) : α :=
  1.0 - Scalar.pow 0.001 (1.0 / Scalar.ofNat (max ticks 1))

/-- Takes so many steps, with falling heat. -/
@[specialize] def run (f : ForceField α) (decay : α) :
    Nat → α → Array (Body α) → Option (Array (Body α))
  | 0, _, bodies => some bodies
  | n + 1, alpha, bodies =>
    let alpha := alpha - alpha * decay
    match f.tick alpha bodies with
    | some bodies => run f decay n alpha bodies
    | none => none

/-- The field for the given nodes of a graph in a zone. -/
def ofGraph (settings : LayoutSettings α) (zone : Zone α) (adjacency : Array (List Nat))
    (members : List Nat) : ForceField α :=
  let links := members.zipIdx.flatMap fun (node, s) =>
    ((adjacency.getD node []).filterMap members.idxOf?).filterMap fun t =>
      if s = t then none else some (s, t)
  let degree := (Array.range members.length).map fun i =>
    links.countP (·.1 = i) + links.countP (·.2 = i)
  { settings, zone, links, degree }

/-- All steps of the simulation; `none` if the zone has no room. -/
def simulate (f : ForceField α) (bodies : Array (Body α)) : Option (Array (Body α)) :=
  f.run (cooling f.settings.iterations) f.settings.iterations (Scalar.ofNat 1) bodies

end ForceField

end ModuleAtlas
