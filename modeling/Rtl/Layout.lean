import Rtl.Dialect
import Rtl.Layout.SimModel
import Rtl.Layout.Vhdl

namespace Rtl.Dialect

-- The layout of a dialect, with the text by which a body is further in.
def layout : Dialect → String → Layout
  | vhdl, indent => Layout.Vhdl.layout indent
  | simModel, indent => Layout.SimModel.layout indent

end Rtl.Dialect
