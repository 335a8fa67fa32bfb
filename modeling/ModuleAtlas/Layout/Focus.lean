import ModuleAtlas.Layout.Settings

/-!
# Bringing a node to the centre
-/

namespace ModuleAtlas.Graph

variable {α : Type} [Scalar α]

/-- The graph moved so that the given node lies in the centre of the canvas, if it has that node. -/
def centerOn? (g : Graph α) (id : Path) (settings : LayoutSettings α) : Option (Graph α) :=
  (g.node? id).map fun n =>
    let dx := settings.canvasWidth / 2.0 - n.position.x
    let dy := settings.canvasHeight / 2.0 - n.position.y
    g.annotate fun _ m => { m with position := ⟨m.position.x + dx, m.position.y + dy⟩ }

end ModuleAtlas.Graph
