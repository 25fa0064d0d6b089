import VisualEncoding.Text.Lower
import VisualEncoding.Scalar.Basic

/-!
# Color schemes

A scheme is a named list of colors. Categorical schemes give categories their colors, sequential ones
become the range of a scale. Names are compared in lower case.

The registry is that of the specification, §6. A name that no categorical scheme has stands for the default
one; the warning about it (§8) is left out.
-/

namespace VisualEncoding

namespace Color

/-- The categorical schemes that are always known. -/
def categoricalSchemes : List (String × List String) :=
  [("tableau10", ["#4e79a7", "#f28e2b", "#e15759", "#76b7b2", "#59a14f", "#edc948", "#b07aa1",
     "#ff9da7", "#9c755f", "#bab0ac"]),
   ("category10", ["#1f77b4", "#ff7f0e", "#2ca02c", "#d62728", "#9467bd", "#8c564b", "#e377c2",
     "#7f7f7f", "#bcbd22", "#17becf"]),
   ("set1", ["#e41a1c", "#377eb8", "#4daf4a", "#984ea3", "#ff7f00", "#ffff33", "#a65628",
     "#f781bf", "#999999"]),
   ("set2", ["#66c2a5", "#fc8d62", "#8da0cb", "#e78ac3", "#a6d854", "#ffd92f", "#e5c494",
     "#b3b3b3"]),
   ("set3", ["#8dd3c7", "#ffffb3", "#bebada", "#fb8072", "#80b1d3", "#fdb462", "#b3de69",
     "#fccde5", "#d9d9d9", "#bc80bd", "#ccebc5", "#ffed6f"]),
   ("pastel1", ["#fbb4ae", "#b3cde3", "#ccebc5", "#decbe4", "#fed9a6", "#ffffcc", "#e5d8bd",
     "#fddaec", "#f2f2f2"]),
   ("dark2", ["#1b9e77", "#d95f02", "#7570b3", "#e7298a", "#66a61e", "#e6ab02", "#a6761d",
     "#666666"]),
   ("paired", ["#a6cee3", "#1f78b4", "#b2df8a", "#33a02c", "#fb9a99", "#e31a1c", "#fdbf6f",
     "#ff7f00", "#cab2d6", "#6a3d9a", "#ffff99", "#b15928"]),
   ("accent", ["#7fc97f", "#beaed4", "#fdc086", "#ffff99", "#386cb0", "#f0027f", "#bf5b17",
     "#666666"])]

/-- The sequential and diverging schemes that are always known. -/
def sequentialSchemes : List (String × List String) :=
  [("viridis", ["#440154", "#482878", "#3e4a89", "#31688e", "#26828e", "#1f9e89", "#35b779",
     "#6ece58", "#b5de2b", "#fde725"]),
   ("plasma", ["#0d0887", "#46039f", "#7201a8", "#9c179e", "#bd3786", "#d8576b", "#ed7953",
     "#fb9f3a", "#fdca26", "#f0f921"]),
   ("magma", ["#000004", "#180f3d", "#440f76", "#721f81", "#9e2f7f", "#cd4071", "#f1605d",
     "#fd9668", "#feca8d", "#fcfdbf"]),
   ("inferno", ["#000004", "#1b0c41", "#4a0c6b", "#781c6d", "#a52c60", "#cf4446", "#ed6925",
     "#fb9b06", "#f7d13d", "#fcffa4"]),
   ("blues", ["#f7fbff", "#deebf7", "#c6dbef", "#9ecae1", "#6baed6", "#4292c6", "#2171b5",
     "#08519c", "#08306b"]),
   ("greens", ["#f7fcf5", "#e5f5e0", "#c7e9c0", "#a1d99b", "#74c476", "#41ab5d", "#238b45",
     "#006d2c", "#00441b"]),
   ("oranges", ["#fff5eb", "#fee6ce", "#fdd0a2", "#fdae6b", "#fd8d3c", "#f16913", "#d94801",
     "#a63603", "#7f2704"]),
   ("reds", ["#fff5f0", "#fee0d2", "#fcbba1", "#fc9272", "#fb6a4a", "#ef3b2c", "#cb181d",
     "#a50f15", "#67000d"]),
   ("redblue", ["#67001f", "#b2182b", "#d6604d", "#f4a582", "#fddbc7", "#f7f7f7", "#d1e5f0",
     "#92c5de", "#4393c3", "#2166ac", "#053061"]),
   ("redyellowgreen", ["#a50026", "#d73027", "#f46d43", "#fdae61", "#fee08b", "#ffffbf",
     "#d9ef8b", "#a6d96a", "#66bd63", "#1a9850", "#006837"]),
   ("spectral", ["#9e0142", "#d53e4f", "#f46d43", "#fdae61", "#fee08b", "#ffffbf", "#e6f598",
     "#abdda4", "#66c2a5", "#3288bd", "#5e4fa2"])]

/-- The scheme of categories where none is named, or an unknown one. -/
def defaultScheme : String := "tableau10"

end Color

/-- The schemes that can be asked for by name, those registered last first. -/
structure SchemeRegistry where
  categorical : List (String × List String) := Color.categoricalSchemes
  sequential : List (String × List String) := Color.sequentialSchemes
  deriving Repr, DecidableEq

namespace SchemeRegistry

/-- Adds a categorical scheme, or replaces the one of that name. -/
def addCategorical (r : SchemeRegistry) (name : String) (colors : List String) : SchemeRegistry :=
  { r with categorical := (Text.lower name, colors) :: r.categorical }

/-- Adds a sequential scheme, or replaces the one of that name. -/
def addSequential (r : SchemeRegistry) (name : String) (colors : List String) : SchemeRegistry :=
  { r with sequential := (Text.lower name, colors) :: r.sequential }

/-- The colors of a categorical scheme. -/
def categorical? (r : SchemeRegistry) (name : String) : Option (List String) :=
  r.categorical.lookup (Text.lower name)

/-- The colors of a sequential scheme. -/
def sequential? (r : SchemeRegistry) (name : String) : Option (List String) :=
  r.sequential.lookup (Text.lower name)

/-- The known scheme that a name stands for: itself in lower case, or the default. -/
def resolve (r : SchemeRegistry) (name : Option String) : String :=
  match name with
  | some name => if (r.categorical? name).isSome then Text.lower name else Color.defaultScheme
  | none => Color.defaultScheme

/-- The colors of the scheme that a name stands for. -/
def palette (r : SchemeRegistry) (name : Option String) : List String :=
  (r.categorical? (r.resolve name)).getD []

end SchemeRegistry

end VisualEncoding
