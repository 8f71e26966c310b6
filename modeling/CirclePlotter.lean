import CirclePlotter.FinalDesign.AddressRange
import CirclePlotter.FinalDesign.Display
import CirclePlotter.FinalDesign.Main
import CirclePlotter.FinalDesign.Completion
import CirclePlotter.FinalDesign.Handshake
import CirclePlotter.FinalDesign.Interference
import CirclePlotter.FinalDesign.RamPorts
import CirclePlotter.Parallel.Display
import CirclePlotter.Parallel.Limit
import CirclePlotter.Parallel.ScreenPort
import CirclePlotter.Parallel.Strokes
import CirclePlotter.ReferenceCircle
import CirclePlotter.SetPixel.Main
