import OsrmNutiteq.Osmium.Xml
import OsrmNutiteq.Osmium.Buffer
import OsrmNutiteq.Osmium.Attributes
import OsrmNutiteq.Osmium.XmlParser
import OsrmNutiteq.Osmium.BuilderInvariant
import OsrmNutiteq.Osmium.OsmDocument
import OsrmNutiteq.Osmium.FlushRefinement
import OsrmNutiteq.Osmium.ParserTask
import OsrmNutiteq.Osmium.InputFormat
import OsrmNutiteq.Osmium.Reading
import OsrmNutiteq.Osmium.Close
import OsrmNutiteq.Osrm.QueryCount
import OsrmNutiteq.Osrm.Nutiserver
import OsrmNutiteq.Nuti.Double
import OsrmNutiteq.Nuti.ViaRoute
import OsrmNutiteq.Nuti.RouteRendering
import OsrmNutiteq.Nuti.PathDescription
import OsrmNutiteq.Nuti.PackageDiscovery
